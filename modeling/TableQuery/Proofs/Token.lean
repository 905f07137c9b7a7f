import Mathlib
import TableQuery.Proofs.Quoted

namespace TableQuery

theorem isWordChar_of_isBlank {c : Char} (h : isBlank c = true) : isWordChar c = false := by
  simp only [isBlank, Bool.or_eq_true, beq_iff_eq] at h
  rcases h with ((rfl | rfl) | rfl) | rfl <;> decide

theorem isDigit_of_isWordStart {c : Char} (h : isWordStart c = true) : c.isDigit = false := by
  simp only [isWordStart, Char.isAlpha, Char.isUpper, Char.isLower, Bool.or_eq_true,
    decide_eq_true_eq, Bool.and_eq_true, beq_iff_eq, UInt32.le_iff_toNat_le, ge_iff_le] at h
  simp only [Char.isDigit, Bool.and_eq_false_iff, decide_eq_false_iff_not,
    UInt32.le_iff_toNat_le, ge_iff_le]
  have hA : 'A'.val.toNat = 65 := rfl
  have ha : 'a'.val.toNat = 97 := rfl
  have h9 : '9'.val.toNat = 57 := rfl
  rcases h with ((h | h) | rfl) | rfl
  · omega
  · omega
  · decide
  · decide

theorem isDigit_of_isBlank {c : Char} (h : isBlank c = true) : c.isDigit = false := by
  have hword : isWordChar c = false := isWordChar_of_isBlank h
  simp only [isWordChar, Bool.or_eq_false_iff] at hword
  exact hword.2

namespace Scan

/-- A token that ends in front of a character leaves the rest to be scanned as from the start. -/
theorem run?_of_endBefore {scan : Scan} {c : Char} {tokens : List Token}
    (h : scan.step? c = endBefore? c tokens) (cs : List Char) :
    scan.run? (c :: cs) = (idle.run? (c :: cs)).map (tokens ++ ·) := by
  have hidle : idle.step? c = start? c := rfl
  simp only [run?, h, hidle, endBefore?]
  cases start? c with
  | none => rfl
  | some next => simp [Function.comp_def]

theorem run?_of_step {scan next : Scan} {c : Char} (h : scan.step? c = some ([], next))
    (cs : List Char) : scan.run? (c :: cs) = next.run? cs := by
  simp [run?, h]

theorem run?_blanks {blanks : List Char} (h : ∀ c ∈ blanks, isBlank c = true) (cs : List Char) :
    idle.run? (blanks ++ cs) = idle.run? cs := by
  induction blanks with
  | nil => rfl
  | cons c rest ih =>
    obtain ⟨hc, hrest⟩ := List.forall_mem_cons.mp h
    have hstep : idle.step? c = some ([], idle) := by simp [step?, start?, hc]
    calc idle.run? (c :: rest ++ cs)
        = idle.run? (rest ++ cs) := run?_of_step hstep (rest ++ cs)
      _ = idle.run? cs := ih hrest

section Word

def EndsWord (cs : List Char) : Prop := ∀ c, cs.head? = some c → isWordChar c = false

/-- A word goes on up to the first character that is not part of it. -/
theorem run?_word {w cs : List Char} (hw : ∀ c ∈ w, isWordChar c = true)
    (hcs : EndsWord cs) (read : List Char) :
    (word read).run? (w ++ cs) =
      (idle.run? cs).map (Token.ofWord (w.reverse ++ read) :: ·) := by
  induction w generalizing read with
  | nil =>
    cases cs with
    | nil => rfl
    | cons c rest =>
      have hc : isWordChar c = false := hcs c rfl
      have hstep : (word read).step? c = endBefore? c [Token.ofWord read] := by simp [step?, hc]
      exact run?_of_endBefore hstep rest
  | cons c rest ih =>
    obtain ⟨hc, hrest⟩ := List.forall_mem_cons.mp hw
    have hstep : (word read).step? c = some ([], word (c :: read)) := by simp [step?, hc]
    calc (word read).run? (c :: rest ++ cs)
        = (word (c :: read)).run? (rest ++ cs) := run?_of_step hstep (rest ++ cs)
      _ = (idle.run? cs).map (Token.ofWord (rest.reverse ++ c :: read) :: ·) :=
        ih hrest (c :: read)
      _ = (idle.run? cs).map (Token.ofWord ((c :: rest).reverse ++ read) :: ·) := by simp

end Word

section Kind

def Begun (t : Token) : Scan → Prop
  | idle => False
  | word _ => ∃ name, t = .word name
  | number _ _ => ∃ spelling, t = .number spelling
  | quoted _ _ | escaped _ _ => ∃ single body, t = .quoted single body

/-- A character of a number goes into the number, is refused or ends the number in front of it;
only a point may be left behind the number. -/
theorem step?_number_cases (part : NumberPart) (read : List Char) (c : Char) :
    (∃ next, (number part read).step? c = some ([], number next (c :: read))) ∨
      (number part read).step? c = none ∨
      ∃ shorter tokens, tokens ⊆ [.dot] ∧
        (number part read).step? c = endBefore? c (Token.ofNumber shorter :: tokens) := by
  cases part <;> simp only [step?, numberStep?]
  all_goals repeat' split
  all_goals first
    | exact .inl ⟨_, rfl⟩
    | exact .inr (.inl rfl)
    | exact .inr (.inr ⟨read, [], List.nil_subset _, rfl⟩)
    | exact .inr (.inr ⟨read.tail, [.dot], List.Subset.refl _, rfl⟩)

theorem endBefore?_eq_some {c : Char} {tokens yielded : List Token} {next : Scan}
    (h : endBefore? c tokens = some (yielded, next)) : ∃ more, yielded = tokens ++ more := by
  obtain ⟨⟨more, scan⟩, -, heq⟩ := Option.map_eq_some_iff.mp h
  cases heq
  exact ⟨more, rfl⟩

/-- What is begun goes on or yields a token of its kind. -/
theorem step?_begun {scan next : Scan} {c : Char} {tokens : List Token} (hscan : scan ≠ idle)
    (h : scan.step? c = some (tokens, next)) :
    (tokens = [] ∧ next ≠ idle ∧ ∀ t, Begun t next → Begun t scan) ∨
      ∃ t rest, tokens = t :: rest ∧ Begun t scan := by
  cases scan with
  | idle => exact absurd rfl hscan
  | word read =>
    rw [step?] at h
    split at h
    · cases h
      exact .inl ⟨rfl, by simp, fun _ ht => ht⟩
    · obtain ⟨more, rfl⟩ := endBefore?_eq_some h
      exact .inr ⟨_, more, rfl, _, rfl⟩
  | number part read =>
    rcases step?_number_cases part read c with ⟨next, heq⟩ | heq | ⟨shorter, rest, -, heq⟩
    all_goals rw [heq] at h
    · cases h
      exact .inl ⟨rfl, by simp, fun _ ht => ht⟩
    · cases h
    · obtain ⟨more, rfl⟩ := endBefore?_eq_some h
      exact .inr ⟨_, _, rfl, _, rfl⟩
  | quoted single read =>
    rw [step?] at h
    split at h
    · cases h
      exact .inl ⟨rfl, by simp, fun _ ht => ht⟩
    · split at h
      · cases h
        exact .inr ⟨_, [], rfl, single, _, rfl⟩
      · cases h
        exact .inl ⟨rfl, by simp, fun _ ht => ht⟩
  | escaped single read =>
    cases h
    exact .inl ⟨rfl, by simp, fun _ ht => ht⟩

/-- The first token that a scan yields is of the kind that is begun. -/
theorem exists_of_run? {scan : Scan} {cs : List Char} {tokens : List Token}
    (hscan : scan ≠ idle) (h : scan.run? cs = some tokens) :
    ∃ t rest, tokens = t :: rest ∧ Begun t scan := by
  induction cs generalizing scan tokens with
  | nil =>
    cases scan with
    | idle => exact absurd rfl hscan
    | word read =>
      cases h
      exact ⟨_, [], rfl, _, rfl⟩
    | number part read =>
      cases part <;> cases h
      all_goals exact ⟨_, [], rfl, _, rfl⟩
    | quoted single read => cases h
    | escaped single read => cases h
  | cons c rest ih =>
    rw [run?] at h
    split at h
    · cases h
    · next yielded next hstep =>
      obtain ⟨others, hothers, rfl⟩ := Option.map_eq_some_iff.mp h
      rcases step?_begun hscan hstep with ⟨rfl, hnext, hbegun⟩ | ⟨t, more, rfl, ht⟩
      · obtain ⟨t, more, rfl, ht⟩ := ih hnext hothers
        exact ⟨t, more, rfl, hbegun t ht⟩
      · exact ⟨t, more ++ others, rfl, ht⟩

theorem start?_cases {c : Char} {tokens : List Token} {next : Scan}
    (hc : isBlank c = false) (h : start? c = some (tokens, next)) :
    (tokens = [] ∧ next ≠ idle ∧ ∀ part read, next = number part read → read = [c]) ∨
      ∃ t, tokens = [t] ∧ Token.punctuation? c = some t := by
  unfold start? at h
  rw [if_neg (by simp [hc])] at h
  repeat' split at h
  all_goals first
    | cases h; exact .inl ⟨rfl, by simp, by simp⟩
    | skip
  obtain ⟨t, ht, heq⟩ := Option.map_eq_some_iff.mp h
  cases heq
  exact .inr ⟨t, rfl, ht⟩

/-- Only blanks yield no token. -/
theorem run?_idle_ne_nil {c : Char} (hc : isBlank c = false) (cs : List Char) :
    idle.run? (c :: cs) ≠ some [] := by
  intro h
  rw [run?] at h
  split at h
  · cases h
  · next tokens next hstart =>
    obtain ⟨more, hmore, heq⟩ := Option.map_eq_some_iff.mp h
    obtain ⟨htokens, rfl⟩ := List.append_eq_nil_iff.mp heq
    rcases start?_cases hc hstart with ⟨-, hnext, -⟩ | ⟨t, ht, -⟩
    · obtain ⟨t, rest, hcons, -⟩ := exists_of_run? hnext hmore
      cases hcons
    · rw [htokens] at ht
      cases ht

end Kind

section Number

-- A point behind a number has something other than a digit behind it.
def EndsNumber (cs : List Char) : Prop :=
  EndsWord cs ∧ ∀ rest, cs = '.' :: rest → ∃ c more, rest = c :: more ∧ c.isDigit = false

/-- A number that is complete ends in front of such a text. -/
theorem run?_of_finish {part : NumberPart} {read cs : List Char} {spelling : String}
    (h : (number part read).finish? = some [.number spelling]) (hcs : EndsNumber cs) :
    (number part read).run? cs = (idle.run? cs).map (.number spelling :: ·) := by
  have hspelling : Token.ofNumber read = .number spelling := by
    cases part <;> cases h <;> rfl
  cases cs with
  | nil => exact h
  | cons c rest =>
    have hc : isWordChar c = false := hcs.1 c rfl
    have hdigit : c.isDigit = false := by
      simp only [isWordChar, Bool.or_eq_false_iff] at hc
      exact hc.2
    have hmark : (c == 'e' || c == 'E') = false := by
      rw [Bool.eq_false_iff]
      intro hmark
      simp only [Bool.or_eq_true, beq_iff_eq] at hmark
      rcases hmark with rfl | rfl <;> exact absurd hc (by decide)
    by_cases hdot : c = '.'
    · -- behind digits without a fraction the point is held back up to the character behind it
      subst hdot
      obtain ⟨d, more, rfl, hd⟩ := hcs.2 rest rfl
      have hpoint : (number .point ('.' :: read)).step? d =
          endBefore? d [Token.ofNumber read, .dot] := by
        simp [step?, numberStep?, hd]
      have hfraction : idle.run? ('.' :: d :: more) = (idle.run? (d :: more)).map (.dot :: ·) :=
        rfl
      cases part with
      | zero | whole =>
        rw [run?_of_step rfl, run?_of_endBefore hpoint, hfraction, hspelling]
        simp [Function.comp_def]
      | fraction | exponent => rw [run?_of_endBefore rfl, hspelling]; rfl
      | minus | point | mark | markSign => cases h
    · have hstep : (number part read).step? c = endBefore? c [Token.ofNumber read] := by
        cases part <;> cases h
        all_goals simp [step?, numberStep?, hc, hdigit, hmark, hdot]
      rw [run?_of_endBefore hstep, hspelling]
      rfl

/-- A number without blanks is scanned to its end, also in front of a text that does not go on
with it. -/
theorem run?_number {part : NumberPart} {read w : List Char} {spelling : String}
    (h : (number part read).run? w = some [.number spelling])
    (hw : ∀ c ∈ w, isBlank c = false) :
    spelling.toList = read.reverse ++ w ∧ ∀ cs, EndsNumber cs →
      (number part read).run? (w ++ cs) = (idle.run? cs).map (.number spelling :: ·) := by
  induction w generalizing part read with
  | nil =>
    refine ⟨?_, fun cs hcs => run?_of_finish h hcs⟩
    -- only a part that may end a number yields one
    cases part <;> cases h
    all_goals simp
  | cons c rest ih =>
    obtain ⟨hc, hrest⟩ := List.forall_mem_cons.mp hw
    -- the number goes on over every character, as what would follow it is no blank
    rcases step?_number_cases part read c with ⟨next, heq⟩ | heq | ⟨shorter, tokens, -, heq⟩
    · rw [run?_of_step heq] at h
      obtain ⟨hspelling, happend⟩ := ih h hrest
      refine ⟨by simpa using hspelling, fun cs hcs => ?_⟩
      rw [List.cons_append, run?_of_step heq]
      exact happend cs hcs
    · simp [run?, heq] at h
    · -- a token behind the number would be a second one
      rw [run?_of_endBefore heq] at h
      obtain ⟨more, hmore, hcons⟩ := Option.map_eq_some_iff.mp h
      have hnil : tokens ++ more = [] := List.tail_eq_of_cons_eq hcons
      obtain ⟨-, rfl⟩ := List.append_eq_nil_iff.mp hnil
      exact absurd hmore (run?_idle_ne_nil hc rest)

end Number

end Scan

namespace Token

open Scan (EndsWord EndsNumber)

def EndsIn : Token → List Char → Prop
  | word _, cs => EndsWord cs
  | number _, cs => EndsNumber cs
  | _, _ => True

/-- Tokens that are scanned as themselves in front of every such text. A word begins like one. -/
structure Sound (t : Token) : Prop where
  scans : ∀ cs, t.EndsIn cs → Scan.idle.run? (t.chars ++ cs) = (Scan.idle.run? cs).map (t :: ·)
  start : ∀ name, t = word name → ∃ c w, name.toList = c :: w ∧ isWordStart c = true

theorem sound_word {name : String} (h : isIdentifier name = true) : (word name).Sound := by
  unfold isIdentifier at h
  split at h
  · cases h
  next c w hname =>
    obtain ⟨hc, hw⟩ := Bool.and_eq_true_iff.mp h
    refine ⟨fun cs hcs => ?_, fun other heq => ?_⟩
    · have hblank : isBlank c = false := by
        rw [Bool.eq_false_iff]
        intro hblank
        have hword := isWordChar_of_isBlank hblank
        simp [isWordChar, hc] at hword
      have hstep : Scan.idle.step? c = some ([], .word [c]) := by
        simp [Scan.step?, Scan.start?, hblank, hc]
      have hword : ofWord (w.reverse ++ [c]) = word name := by
        have hchars : (w.reverse ++ [c]).reverse = name.toList := by simp [hname]
        rw [ofWord, hchars, String.ofList_toList]
      calc Scan.idle.run? (name.toList ++ cs)
          = Scan.idle.run? (c :: (w ++ cs)) := by rw [hname, List.cons_append]
        _ = (Scan.word [c]).run? (w ++ cs) := Scan.run?_of_step hstep (w ++ cs)
        _ = (Scan.idle.run? cs).map (ofWord (w.reverse ++ [c]) :: ·) :=
          Scan.run?_word (List.all_eq_true.mp hw) hcs [c]
        _ = (Scan.idle.run? cs).map (word name :: ·) := by rw [hword]
    · cases heq
      exact ⟨c, w, hname, hc⟩

/-- A text without blanks that is scanned as one number is the spelling of this number. -/
theorem sound_number {text spelling : String} (h : scan? text = some [number spelling])
    (hblank : ∀ c ∈ text.toList, isBlank c = false) :
    spelling = text ∧ (number text).Sound := by
  rw [scan?] at h
  cases htext : text.toList with
  | nil =>
    rw [htext] at h
    cases h
  | cons c w =>
    rw [htext, Scan.run?] at h
    rw [htext] at hblank
    obtain ⟨hc, hw⟩ := List.forall_mem_cons.mp hblank
    split at h
    · cases h
    · next tokens next hstart =>
      obtain ⟨more, hmore, heq⟩ := Option.map_eq_some_iff.mp h
      -- the kind of the one token tells what its first character has begun
      rcases Scan.start?_cases hc hstart with ⟨rfl, hnext, hread⟩ | ⟨t, rfl, ht⟩
      · cases heq
        obtain ⟨t, rest, hcons, hbegun⟩ := Scan.exists_of_run? hnext hmore
        cases hcons
        cases next with
        | number part read =>
          obtain rfl : read = [c] := hread part read rfl
          obtain ⟨hspelling, hscans⟩ := Scan.run?_number hmore hw
          have hwhole : spelling = text := by
            rw [← String.toList_inj, hspelling, htext]
            rfl
          subst hwhole
          refine ⟨rfl, fun cs hcs => ?_, fun name heq => by cases heq⟩
          rw [chars, htext, List.cons_append, Scan.run?_of_step hstart, hscans cs hcs]
        | idle => exact absurd rfl hnext
        | word read => obtain ⟨name, heq⟩ := hbegun; cases heq
        | quoted single read => obtain ⟨_, _, heq⟩ := hbegun; cases heq
        | escaped single read => obtain ⟨_, _, heq⟩ := hbegun; cases heq
      · -- the one token would be punctuation
        have hnumber : t = number spelling := List.head_eq_of_cons_eq heq
        subst hnumber
        unfold punctuation? at ht
        split at ht <;> cases ht

theorem sound_quoted {single : Bool} {body : String} (h : Quoted.InQuotes single body.toList) :
    (quoted single body).Sound := by
  refine ⟨fun more _ => ?_, fun name heq => by cases heq⟩
  have hopen : Scan.idle.step? (quote single) = some ([], .quoted single []) := by
    cases single <;> rfl
  have hclose : (Scan.quoted single body.toList.reverse).step? (quote single) =
      some ([quoted single body], .idle) := by
    cases single <;> simp [Scan.step?, quote]
  calc Scan.idle.run? (quote single :: body.toList ++ [quote single] ++ more)
      = Scan.idle.run? (quote single :: (body.toList ++ quote single :: more)) := by simp
    _ = (Scan.quoted single []).run? (body.toList ++ quote single :: more) :=
      Scan.run?_of_step hopen _
    _ = (Scan.quoted single body.toList.reverse).run? (quote single :: more) := by
      rw [h.run?_quoted, List.append_nil]
    _ = (Scan.idle.run? more).map (quoted single body :: ·) := by simp [Scan.run?, hclose]

theorem IsString.sound {s : String} {t : Token} (h : t.IsString s) : t.Sound := by
  obtain ⟨single, body, rfl, hspells⟩ := h
  exact sound_quoted hspells.inQuotes

theorem sound_dot : dot.Sound := ⟨fun _ _ => rfl, fun _ h => by cases h⟩

theorem sound_comma : comma.Sound := ⟨fun _ _ => rfl, fun _ h => by cases h⟩

theorem sound_colon : colon.Sound := ⟨fun _ _ => rfl, fun _ h => by cases h⟩

theorem sound_opening (b : Bracket) : (opening b).Sound := by
  cases b <;> exact ⟨fun _ _ => rfl, fun _ h => by cases h⟩

theorem sound_closing (b : Bracket) : (closing b).Sound := by
  cases b <;> exact ⟨fun _ _ => rfl, fun _ h => by cases h⟩

def isAlphanumeric : Token → Bool
  | word _ | number _ => true
  | _ => false

def mayPrecede : Token → Token → Bool
  | word _, t | number _, t => !t.isAlphanumeric
  -- in front of a digit a point would continue a number before it
  | dot, word _ => true
  | dot, _ => false
  | _, _ => true

def Joined (tokens : List Token) : Prop :=
  (tokens ++ [comma]).IsChain fun t u => mayPrecede t u = true

theorem Joined.tail {t : Token} {tokens : List Token} (h : Joined (t :: tokens)) :
    Joined tokens := List.IsChain.tail h

theorem Joined.head {t u : Token} {tokens : List Token} (h : Joined (t :: tokens))
    (hu : tokens.head? = some u) : mayPrecede t u = true := by
  cases tokens with
  | nil => cases hu
  | cons v rest =>
    cases hu
    exact (List.isChain_cons_cons.mp h).1

namespace Spaced

theorem endsWord {tokens : List Token} {cs : List Char} (h : Spaced tokens cs)
    (hhead : ∀ t, tokens.head? = some t → t.isAlphanumeric = false) : EndsWord cs := by
  intro c hc
  cases h with
  | nil blank => exact isWordChar_of_isBlank (blank c (List.mem_of_mem_head? hc))
  | @cons blanks cs token tokens blank rest =>
    cases blanks with
    | cons b more =>
      cases hc
      exact isWordChar_of_isBlank (blank _ List.mem_cons_self)
    | nil =>
      have htoken : token.isAlphanumeric = false := hhead token rfl
      cases token with
      | word name => cases htoken
      | number spelling => cases htoken
      | quoted single body => cases single <;> cases hc <;> decide
      | dot => cases hc; decide
      | comma => cases hc; decide
      | colon => cases hc; decide
      | opening b => cases b <;> cases hc <;> decide
      | closing b => cases b <;> cases hc <;> decide

/-- A word behind blanks does not begin with a digit. -/
theorem head_of_word {name : String} {tokens : List Token} {cs : List Char}
    (h : Spaced (word name :: tokens) cs) (hsound : (word name).Sound) :
    ∃ c more, cs = c :: more ∧ c.isDigit = false := by
  cases h with
  | @cons blanks cs token tokens blank rest =>
    cases blanks with
    | cons b more => exact ⟨b, _, rfl, isDigit_of_isBlank (blank b List.mem_cons_self)⟩
    | nil =>
      obtain ⟨c, w, hname, hc⟩ := hsound.start name rfl
      refine ⟨c, w ++ cs, ?_, isDigit_of_isWordStart hc⟩
      simp [chars, hname]

theorem endsNumber {tokens : List Token} {cs : List Char} (h : Spaced tokens cs)
    (hsound : ∀ t ∈ tokens, t.Sound) (hjoined : Joined tokens)
    (hhead : ∀ t, tokens.head? = some t → t.isAlphanumeric = false) : EndsNumber cs := by
  refine ⟨h.endsWord hhead, fun more hmore => ?_⟩
  cases h with
  | nil blank =>
    have hdot : isBlank '.' = true := blank '.' (by simp [hmore])
    cases hdot
  | @cons blanks cs token tokens blank rest =>
    cases blanks with
    | cons b others =>
      cases hmore
      have hdot : isBlank '.' = true := blank '.' List.mem_cons_self
      cases hdot
    | nil =>
      have htoken : token.isAlphanumeric = false := hhead token rfl
      cases token with
      | word name => cases htoken
      | number spelling => cases htoken
      | quoted single body => cases single <;> cases hmore
      | comma | colon => cases hmore
      | opening b => cases b <;> cases hmore
      | closing b => cases b <;> cases hmore
      | dot =>
        cases hmore
        cases tokens with
        | nil => cases (List.isChain_cons_cons.mp hjoined).1
        | cons u others =>
          -- behind a point there is a word
          have hu : mayPrecede dot u = true := hjoined.head rfl
          cases u with
          | word name => exact rest.head_of_word (hsound _ (by simp))
          | number | quoted | dot | comma | colon | opening | closing => cases hu

theorem endsIn {t : Token} {tokens : List Token} {cs : List Char} (h : Spaced tokens cs)
    (hsound : ∀ u ∈ tokens, u.Sound) (hjoined : Joined (t :: tokens)) : t.EndsIn cs := by
  cases t with
  | word name =>
    refine h.endsWord fun u hu => ?_
    simpa [mayPrecede] using hjoined.head hu
  | number spelling =>
    refine h.endsNumber hsound hjoined.tail fun u hu => ?_
    simpa [mayPrecede] using hjoined.head hu
  | quoted | dot | comma | colon | opening | closing => trivial

/-- A text of tokens with any blanks is scanned as these tokens, by induction on the tokens. -/
theorem run?_idle {tokens : List Token} {cs : List Char} (h : Spaced tokens cs)
    (hsound : ∀ t ∈ tokens, t.Sound) (hjoined : Joined tokens) :
    Scan.idle.run? cs = some tokens := by
  induction h with
  | @nil blanks blank =>
    have hblanks := Scan.run?_blanks blank []
    rwa [List.append_nil] at hblanks
  | @cons blanks cs token tokens blank rest ih =>
    obtain ⟨htoken, hrest⟩ := List.forall_mem_cons.mp hsound
    have hends : token.EndsIn cs := rest.endsIn hrest hjoined
    calc Scan.idle.run? (blanks ++ token.chars ++ cs)
        = Scan.idle.run? (token.chars ++ cs) := by
          rw [List.append_assoc, Scan.run?_blanks blank]
      _ = (Scan.idle.run? cs).map (token :: ·) := htoken.scans cs hends
      _ = some (token :: tokens) := by rw [ih hrest hjoined.tail, Option.map_some]

end Spaced

/-- Tokens may be written without blanks. -/
theorem spaced_flatMap (tokens : List Token) : Spaced tokens (tokens.flatMap chars) := by
  induction tokens with
  | nil => exact .nil (by simp)
  | cons token rest ih =>
    have hspaced : Spaced (token :: rest) ([] ++ token.chars ++ rest.flatMap chars) :=
      .cons (by simp) ih
    simpa using hspaced

end Token

end TableQuery
