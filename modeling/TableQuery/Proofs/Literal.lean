import TableQuery.Proofs.Token

/-!
Literals in quotes, whatever they hold. The rule for their bodies is what scanning goes by
(`Quoted.inQuotes_iff`), and such a body either spells some characters or has a fault: a raw control
character or an escape that stands for no character (`Quoted.spells_or_faulty`). Respelling a body in
single quotes for double quotes keeps the rule, the characters and the faults
(`Quoted.requote_exact`), so a literal of a text stands for the string that it spells, or has a
fault (`Token.string?_exact`).
-/

namespace TableQuery

section Rule

open Quoted (InQuotes)

theorem Quoted.InQuotes.append {single : Bool} {body more : List Char} (h : InQuotes single body)
    (hmore : InQuotes single more) : InQuotes single (body ++ more) := by
  induction h with
  | nil => exact hmore
  | plain escape quote _ ih => exact .plain escape quote ih
  | escaped c _ ih => exact .escaped c ih

def Token.WellQuoted : Token → Prop
  | quoted single body => InQuotes single body.toList
  | _ => True

namespace Scan

def WellQuoted : Scan → Prop
  | quoted single read => InQuotes single read.reverse
  | escaped single read => ∃ before, read = '\\' :: before ∧ InQuotes single before.reverse
  | _ => True

theorem wellQuoted_of_start? {c : Char} {tokens : List Token} {next : Scan}
    (h : start? c = some (tokens, next)) : next.WellQuoted ∧ ∀ t ∈ tokens, t.WellQuoted := by
  unfold start? at h
  repeat' split at h
  case isFalse =>
    obtain ⟨t, ht, heq⟩ := Option.map_eq_some_iff.mp h
    cases heq
    refine ⟨trivial, List.forall_mem_singleton.mpr ?_⟩
    unfold Token.punctuation? at ht
    split at ht <;> cases ht <;> trivial
  -- nothing is in the quotes that are opened
  all_goals
    cases h
    refine ⟨?_, by simp⟩
    first | trivial | exact .nil

theorem wellQuoted_of_endBefore? {c : Char} {done tokens : List Token} {next : Scan}
    (hdone : ∀ t ∈ done, t.WellQuoted) (h : endBefore? c done = some (tokens, next)) :
    next.WellQuoted ∧ ∀ t ∈ tokens, t.WellQuoted := by
  obtain ⟨⟨more, scan⟩, hstart, heq⟩ := Option.map_eq_some_iff.mp h
  cases heq
  obtain ⟨hnext, hmore⟩ := wellQuoted_of_start? hstart
  exact ⟨hnext, List.forall_mem_append.mpr ⟨hdone, hmore⟩⟩

/-- One more character keeps the rule. A quotation is closed by a quote that no backslash takes. -/
theorem WellQuoted.step? {scan next : Scan} {c : Char} {tokens : List Token}
    (h : scan.WellQuoted) (hstep : scan.step? c = some (tokens, next)) :
    next.WellQuoted ∧ ∀ t ∈ tokens, t.WellQuoted := by
  cases scan with
  | idle => exact wellQuoted_of_start? hstep
  | word read =>
    rw [Scan.step?] at hstep
    split at hstep
    · cases hstep
      exact ⟨trivial, by simp⟩
    · have hword : (Token.ofWord read).WellQuoted := trivial
      exact wellQuoted_of_endBefore? (List.forall_mem_singleton.mpr hword) hstep
  | number part read =>
    rcases step?_number_cases part read c with ⟨state, heq⟩ | heq | ⟨shorter, rest, hrest, heq⟩
    all_goals rw [heq] at hstep
    · cases hstep
      exact ⟨trivial, by simp⟩
    · cases hstep
    · have hnumber : (Token.ofNumber shorter).WellQuoted := trivial
      refine wellQuoted_of_endBefore? (List.forall_mem_cons.mpr ⟨hnumber, fun t ht => ?_⟩) hstep
      obtain rfl := List.mem_singleton.mp (hrest ht)
      trivial
  | quoted single read =>
    rw [Scan.step?] at hstep
    split at hstep
    · next hescape =>
      -- a backslash takes the next character, whatever it is
      cases hstep
      refine ⟨⟨read, ?_, h⟩, by simp⟩
      rw [eq_of_beq hescape]
    · next hescape =>
      split at hstep
      · cases hstep
        -- the quote closes the literal
        refine ⟨trivial, List.forall_mem_singleton.mpr ?_⟩
        rw [Token.WellQuoted, String.toList_ofList]
        exact h
      · next hquote =>
        cases hstep
        refine ⟨?_, by simp⟩
        rw [WellQuoted, List.reverse_cons]
        exact h.append (.plain (by simpa using hescape) (by simpa using hquote) .nil)
  | escaped single read =>
    obtain ⟨before, rfl, hbefore⟩ := h
    cases hstep
    refine ⟨?_, by simp⟩
    rw [WellQuoted, List.reverse_cons, List.reverse_cons, List.append_assoc]
    exact hbefore.append (.escaped c .nil)

theorem WellQuoted.run? {scan : Scan} {cs : List Char} {tokens : List Token}
    (h : scan.WellQuoted) (hrun : scan.run? cs = some tokens) : ∀ t ∈ tokens, t.WellQuoted := by
  induction cs generalizing scan tokens with
  | nil =>
    cases scan with
    | idle => cases hrun; simp
    | word read => cases hrun; exact List.forall_mem_singleton.mpr trivial
    | number part read =>
      cases part <;> cases hrun <;> exact List.forall_mem_singleton.mpr trivial
    | quoted single read => cases hrun
    | escaped single read => cases hrun
  | cons c rest ih =>
    rw [Scan.run?] at hrun
    split at hrun
    · cases hrun
    · next done next hstep =>
      obtain ⟨more, hmore, rfl⟩ := Option.map_eq_some_iff.mp hrun
      obtain ⟨hnext, hdone⟩ := h.step? hstep
      exact List.forall_mem_append.mpr ⟨hdone, ih hnext hmore⟩

end Scan

theorem Token.scan?_quoted {single : Bool} {body : String} (h : InQuotes single body.toList) :
    scan? (quoted single body).text = some [quoted single body] := by
  have hchars : (quoted single body).text.toList = (quoted single body).chars ++ [] := by
    rw [text, String.toList_ofList, List.append_nil]
  rw [scan?, hchars, (sound_quoted h).scans [] trivial]
  rfl

namespace Quoted

/-- The rule allows the bodies that scanning finds. -/
theorem inQuotes_iff {single : Bool} {body : String} :
    InQuotes single body.toList ↔
      ∃ text tokens, Token.scan? text = some tokens ∧ .quoted single body ∈ tokens := by
  constructor
  · intro h
    exact ⟨_, _, Token.scan?_quoted h, List.mem_singleton.mpr rfl⟩
  · rintro ⟨text, tokens, hscan, hbody⟩
    have hidle : Scan.idle.WellQuoted := trivial
    exact hidle.run? hscan _ hbody

end Quoted

end Rule

namespace Quoted

variable {single : Bool} {body rest : List Char}

section Fault

def leadingUnit? : List Char → Option Nat
  | a :: b :: c :: d :: _ => unit? a b c d
  | _ => none

def BeginsLow (text : List Char) : Prop :=
  ∃ rest n, text = '\\' :: 'u' :: rest ∧ leadingUnit? rest = some n ∧ isLow n = true

inductive Fault (single : Bool) : List Char → Prop
  | control {c : Char} {rest : List Char} (control : c < ' ') : Fault single (c :: rest)
  | letter {e : Char} {rest : List Char} (unknown : escapeMeaning? e = none) (unit : e ≠ 'u')
    (apostrophe : single = true → e ≠ '\'') : Fault single ('\\' :: e :: rest)
  | digits {rest : List Char} (missing : leadingUnit? rest = none) :
    Fault single ('\\' :: 'u' :: rest)
  | low {n : Nat} {rest : List Char} (value : leadingUnit? rest = some n)
    (low : isLow n = true) : Fault single ('\\' :: 'u' :: rest)
  | high {n : Nat} {rest : List Char} (value : leadingUnit? rest = some n)
    (high : isHigh n = true) (alone : ¬ BeginsLow (rest.drop 4)) :
    Fault single ('\\' :: 'u' :: rest)

/-- The bodies that have a fault. In front of the first one stands what spells characters. -/
inductive Faulty (single : Bool) : List Char → Prop
  | here {rest : List Char} (fault : Fault single rest) : Faulty single rest
  | later {c : Char} {piece rest : List Char} (first : SpellsChar single c piece)
    (more : Faulty single rest) : Faulty single (piece ++ rest)

theorem exists_of_leadingUnit? {text : List Char} {n : Nat} (h : leadingUnit? text = some n) :
    ∃ a b c d rest, text = a :: b :: c :: d :: rest ∧ unit? a b c d = some n := by
  unfold leadingUnit? at h
  split at h
  · exact ⟨_, _, _, _, _, rfl, h⟩
  · cases h

end Fault

section Front

theorem InQuotes.of_unit {a b c d : Char} {n : Nat} (value : unit? a b c d = some n)
    (h : InQuotes single (a :: b :: c :: d :: rest)) : InQuotes single rest := by
  have plain (x : Char) (hx : x ∈ [a, b, c, d]) {more : List Char}
      (hmore : InQuotes single (x :: more)) : InQuotes single more := by
    cases hmore with
    | plain _ _ h => exact h
    | escaped _ h => exact absurd rfl (ne_of_unit? value _ hx).1
  exact plain d (by simp) <| plain c (by simp) <| plain b (by simp) <| plain a (by simp) h

inductive Front (single : Bool) (text : List Char) : Prop
  | fault (fault : Fault single text)
  | piece {c : Char} {piece rest : List Char} (first : SpellsChar single c piece)
    (more : InQuotes single rest) (text_eq : text = piece ++ rest)

/-- A high surrogate has to be read together with the unit behind it. -/
theorem front_unit (h : InQuotes single rest) : Front single ('\\' :: 'u' :: rest) := by
  cases hvalue : leadingUnit? rest with
  | none => exact .fault (.digits hvalue)
  | some n =>
    obtain ⟨a, b, c, d, more, rfl, hfirst⟩ := exists_of_leadingUnit? hvalue
    have hmore : InQuotes single more := h.of_unit hfirst
    cases hlow : isLow n with
    | true => exact .fault (.low hvalue hlow)
    | false =>
      cases hhigh : isHigh n with
      | false => exact .piece (.unit hfirst hhigh hlow) hmore rfl
      | true =>
        by_cases hpair : BeginsLow more
        · obtain ⟨others, m, rfl, hothers, hm⟩ := hpair
          obtain ⟨e, f, g, h, last, rfl, hsecond⟩ := exists_of_leadingUnit? hothers
          have hlast : InQuotes single last := by
            cases hmore with
            | plain escape _ _ => exact absurd rfl escape
            | escaped _ hdigits => exact hdigits.of_unit hsecond
          exact .piece (.pair hfirst hsecond hhigh hm) hlast rfl
        · exact .fault (.high hvalue hhigh hpair)

theorem front_letter {e : Char} (hunit : e ≠ 'u') (h : InQuotes single rest) :
    Front single ('\\' :: e :: rest) := by
  cases hmeaning : escapeMeaning? e with
  | some c => exact .piece (.letter hmeaning) h rfl
  | none =>
    by_cases hquote : single = true ∧ e = '\''
    · obtain ⟨hsingle, rfl⟩ := hquote
      exact .piece (.apostrophe hsingle) h rfl
    · exact .fault (.letter hmeaning hunit fun hsingle he => hquote ⟨hsingle, he⟩)

theorem InQuotes.front (h : InQuotes single body) : body = [] ∨ Front single body := by
  cases h with
  | nil => exact .inl rfl
  | @plain c rest escape quote hrest =>
    by_cases hcontrol : c < ' '
    · exact .inr (.fault (.control hcontrol))
    · exact .inr (.piece (.plain hcontrol escape quote) hrest rfl)
  | @escaped rest e hrest =>
    by_cases hunit : e = 'u'
    · subst hunit
      exact .inr (front_unit hrest)
    · exact .inr (front_letter hunit hrest)

theorem SpellsChar.length_pos {c : Char} {piece : List Char} (h : SpellsChar single c piece) :
    0 < piece.length := by
  cases h <;> simp

/-- A body spells some characters or has a fault, by induction on its length. -/
theorem spells_or_faulty (h : InQuotes single body) :
    (∃ cs, Spells single cs body) ∨ Faulty single body := by
  induction hlength : body.length using Nat.strong_induction_on generalizing body with
  | _ n ih =>
    rcases h.front with rfl | hfault | @⟨c, piece, rest, hfirst, hrest, rfl⟩
    · exact .inl ⟨[], .nil⟩
    · exact .inr (.here hfault)
    · have hshorter : rest.length < n := by
        have hpos := hfirst.length_pos
        rw [List.length_append] at hlength
        omega
      rcases ih _ hshorter hrest rfl with ⟨cs, hcs⟩ | hfaulty
      · exact .inl ⟨c :: cs, .cons hfirst hcs⟩
      · exact .inr (.later hfirst hfaulty)

end Front

section Decode

theorem decode_control {c : Char} (h : c < ' ') (rest : List Char) : decode (c :: rest) = none := by
  have escape : c ≠ '\\' := by
    rintro rfl
    exact absurd h (by decide)
  rw [decode]
  · rw [if_pos (.inr (.inr h))]
  · intro a b d e more hc
    exact absurd hc escape
  · intro d more hc
    exact absurd hc escape

theorem decode_unknown_letter {e : Char} (h : escapeMeaning? e = none) (hunit : e ≠ 'u')
    (rest : List Char) : decode ('\\' :: e :: rest) = none := by
  rw [decode]
  · simp only [h]
  · intro a b c d more he
    exact absurd he hunit

theorem decode_missing_digits {rest : List Char} (h : leadingUnit? rest = none) :
    decode ('\\' :: 'u' :: rest) = none := by
  match rest with
  | [] | [_] | [_, _] | [_, _, _] => rfl
  | a :: b :: c :: d :: more =>
    rw [decode]
    simp only [show unit? a b c d = none from h]

theorem decode_low {n : Nat} {rest : List Char} (value : leadingUnit? rest = some n)
    (low : isLow n = true) : decode ('\\' :: 'u' :: rest) = none := by
  obtain ⟨a, b, c, d, more, rfl, hvalue⟩ := exists_of_leadingUnit? value
  rw [decode]
  simp only [hvalue, low, if_true]

theorem decode_lone_high {n : Nat} {rest : List Char} (value : leadingUnit? rest = some n)
    (high : isHigh n = true) (alone : ¬ BeginsLow (rest.drop 4)) :
    decode ('\\' :: 'u' :: rest) = none := by
  obtain ⟨a, b, c, d, more, rfl, hvalue⟩ := exists_of_leadingUnit? value
  have hn : isLow n = false := isLow_of_isHigh high
  rw [decode]
  simp only [hvalue, hn, high, Bool.false_eq_true, if_false, if_true]
  split
  · next e f g h others =>
    -- a unit that follows is not a low one
    cases hsecond : unit? e f g h with
    | none => rfl
    | some m =>
      refine if_neg fun hlow => alone ?_
      exact ⟨e :: f :: g :: h :: others, m, rfl, hsecond, hlow⟩
  · rfl

theorem decode_of_fault {text : List Char} (h : Fault false text) : decode text = none := by
  cases h with
  | control control => exact decode_control control _
  | letter unknown unit _ => exact decode_unknown_letter unknown unit _
  | digits missing => exact decode_missing_digits missing
  | low value low => exact decode_low value low
  | high value high alone => exact decode_lone_high value high alone

theorem decode_of_faulty (h : Faulty false body) : decode body = none := by
  induction h with
  | here fault => exact decode_of_fault fault
  | @later c piece rest first _ ih =>
    calc decode (piece ++ rest)
        = (decode rest).map (c :: ·) := decode_append first rest
      _ = none := by rw [ih, Option.map_none]

end Decode

section Requote

theorem inQuotes_requote (h : InQuotes true body) : InQuotes false (requote body) := by
  induction h with
  | nil => exact .nil
  | @plain c rest escape quote _ ih =>
    by_cases hc : c = '"'
    · subst hc
      exact .escaped '"' ih
    · rw [requote_plain escape hc]
      exact .plain escape hc ih
  | @escaped rest c _ ih =>
    by_cases hc : c = '\''
    · subst hc
      exact .plain (by decide) (by decide) ih
    · rw [requote_escape hc]
      exact .escaped c ih

/-- Only a digit is respelled as a digit. -/
theorem requote_eq_digit {text more : List Char} {a : Char} {n : Nat}
    (digit : hexValue? a = some n) (h : requote text = a :: more) :
    ∃ rest, text = a :: rest ∧ requote rest = more := by
  obtain ⟨escape, quote⟩ := ne_of_hexValue? digit
  unfold requote at h
  split at h
  · cases h
  · cases h
    exact absurd rfl escape
  · split at h
    · next hc =>
      cases h
      exact absurd hc (quote true)
    · cases h
      exact absurd rfl escape
  · next c rest _ _ =>
    split at h
    · cases h
      exact absurd rfl escape
    · cases h
      exact ⟨rest, rfl, rfl⟩

/-- Only the escape of a unit is respelled as one. -/
theorem requote_eq_unit {text more : List Char} (h : requote text = '\\' :: 'u' :: more) :
    ∃ rest, text = '\\' :: 'u' :: rest ∧ requote rest = more := by
  unfold requote at h
  split at h
  · cases h
  · cases h
  · split at h
    · next hc =>
      subst hc
      cases h
    · cases h
      exact ⟨_, rfl, rfl⟩
  · next c rest hlone hescape =>
    -- a backslash has a character behind it and so does not go on by itself
    have escape : c ≠ '\\' := by
      intro hc
      cases rest with
      | nil => exact hlone hc rfl
      | cons d others => exact hescape d others hc rfl
    split at h
    · next hc =>
      subst hc
      cases h
    · exact absurd (List.head_eq_of_cons_eq h) escape

theorem leadingUnit?_requote (text : List Char) :
    leadingUnit? (requote text) = leadingUnit? text := by
  refine Option.ext fun n => ⟨fun h => ?_, fun h => ?_⟩
  · obtain ⟨a, b, c, d, more, htext, value⟩ := exists_of_leadingUnit? h
    have digit (x : Char) (hx : x ∈ [a, b, c, d]) := hexValue?_of_unit? value x hx
    obtain ⟨_, ha⟩ := digit a (by simp)
    obtain ⟨_, hb⟩ := digit b (by simp)
    obtain ⟨_, hc⟩ := digit c (by simp)
    obtain ⟨_, hd⟩ := digit d (by simp)
    obtain ⟨second, rfl, hsecond⟩ := requote_eq_digit ha htext
    obtain ⟨third, rfl, hthird⟩ := requote_eq_digit hb hsecond
    obtain ⟨fourth, rfl, hfourth⟩ := requote_eq_digit hc hthird
    obtain ⟨rest, rfl, -⟩ := requote_eq_digit hd hfourth
    exact value
  · obtain ⟨a, b, c, d, rest, rfl, value⟩ := exists_of_leadingUnit? h
    rw [requote_digits value]
    exact value

theorem beginsLow_of_requote {text : List Char} (h : BeginsLow (requote text)) :
    BeginsLow text := by
  obtain ⟨more, n, htext, hvalue, hlow⟩ := h
  obtain ⟨rest, rfl, rfl⟩ := requote_eq_unit htext
  exact ⟨rest, n, rfl, (leadingUnit?_requote rest).symm.trans hvalue, hlow⟩

theorem fault_requote {text : List Char} (h : Fault true text) : Fault false (requote text) := by
  have hu (rest : List Char) : requote ('\\' :: 'u' :: rest) = '\\' :: 'u' :: requote rest :=
    requote_escape (by decide) rest
  cases h with
  | @control c rest control =>
    have hne (d : Char) (hd : ¬ d < ' ') : c ≠ d := by
      rintro rfl
      exact hd control
    rw [requote_plain (hne '\\' (by decide)) (hne '"' (by decide))]
    exact .control control
  | @letter e rest unknown unit apostrophe =>
    rw [requote_escape (apostrophe rfl)]
    exact .letter unknown unit (by simp)
  | digits missing =>
    rw [hu]
    exact .digits ((leadingUnit?_requote _).trans missing)
  | low value low =>
    rw [hu]
    exact .low ((leadingUnit?_requote _).trans value) low
  | high value high alone =>
    rw [hu]
    refine .high ((leadingUnit?_requote _).trans value) high fun hlow => alone ?_
    obtain ⟨a, b, c, d, more, rfl, hdigits⟩ := exists_of_leadingUnit? value
    rw [requote_digits hdigits] at hlow
    exact beginsLow_of_requote hlow

theorem faulty_requote (h : Faulty true body) : Faulty false (requote body) := by
  induction h with
  | here fault => exact .here (fault_requote fault)
  | @later c piece rest first _ ih =>
    obtain ⟨respelled, hrespelled, heq⟩ := requote_append first rest
    rw [heq]
    exact .later hrespelled ih

end Requote

/-- What is read as the characters of a body that spells some and refused if it has a fault is so
exactly then, as there is no third kind of body. -/
theorem read_iff {read : Option (List Char)} (h : InQuotes single body)
    (hspells : ∀ cs, Spells single cs body → read = some cs)
    (hfaulty : Faulty single body → read = none) :
    (∀ cs, read = some cs ↔ Spells single cs body) ∧ (read = none ↔ Faulty single body) := by
  rcases spells_or_faulty h with ⟨cs, hcs⟩ | hbody
  · have hread : read = some cs := hspells cs hcs
    refine ⟨fun other => ⟨fun heq => ?_, hspells other⟩, fun heq => ?_, hfaulty⟩
    · obtain rfl := Option.some.inj (hread.symm.trans heq)
      exact hcs
    · cases hread.symm.trans heq
  · have hread : read = none := hfaulty hbody
    refine ⟨fun cs => ⟨fun heq => ?_, hspells cs⟩, fun _ => hbody, hfaulty⟩
    cases hread.symm.trans heq

/-- A body in single quotes is respelled by the rule for double quotes, so no quote inside ends it,
and it is scanned as one token. It is read as the characters that the body in single quotes spells,
and is refused exactly if that body has a fault. -/
theorem requote_exact (h : InQuotes true body) :
    InQuotes false (requote body) ∧
      Token.scan? (Token.quoted false (String.ofList (requote body))).text =
        some [.quoted false (String.ofList (requote body))] ∧
      (∀ cs, decode (requote body) = some cs ↔ Spells true cs body) ∧
      (decode (requote body) = none ↔ Faulty true body) := by
  have hrule : InQuotes false (requote body) := inQuotes_requote h
  refine ⟨hrule, Token.scan?_quoted (by rwa [String.toList_ofList]), ?_⟩
  apply read_iff h
  · intro cs hcs
    exact decode_of_spells (spells_requote hcs)
  · intro hbody
    exact decode_of_faulty (faulty_requote hbody)

/-- Escaped backslashes in front of quotes of both kinds, and of a letter without a meaning. -/
theorem requote_exact_backslashes :
    let body := ['\\', '\\', '\\', '\'', '"', '\\', '"']
    let faulty := ['\\', '\\', '"', '\\', 'q']
    (InQuotes true body ∧ InQuotes true faulty) ∧
      Token.scan? (Token.quoted false (String.ofList (requote body))).text =
        some [.quoted false (String.ofList (requote body))] ∧
      Spells true ['\\', '\'', '"', '"'] body ∧ Faulty true faulty := by
  intro body faulty
  have hbody : InQuotes true body :=
    .escaped '\\' <| .escaped '\'' <| .plain (by decide) (by decide) <| .escaped '"' .nil
  have hfaulty : InQuotes true faulty :=
    .escaped '\\' <| .plain (by decide) (by decide) <| .escaped 'q' .nil
  obtain ⟨-, hscan, hspells, -⟩ := requote_exact hbody
  obtain ⟨-, -, -, hnone⟩ := requote_exact hfaulty
  have hread : decode (requote body) = some ['\\', '\'', '"', '"'] := by decide
  have hrefused : decode (requote faulty) = none := by decide
  exact ⟨⟨hbody, hfaulty⟩, hscan, (hspells _).mp hread, hnone.mp hrefused⟩

end Quoted

/-- A literal of a text, in quotes of either kind, stands for the string that it spells, or has a
fault. -/
theorem Token.string?_exact {text : String} {tokens : List Token} {single : Bool} {body : String}
    (hscan : scan? text = some tokens) (hbody : quoted single body ∈ tokens) :
    (∀ s, (quoted single body).string? = some s ↔ Quoted.Spells single s.toList body.toList) ∧
      ((quoted single body).string? = none ↔ Quoted.Faulty single body.toList) := by
  have hrule : Quoted.InQuotes single body.toList :=
    Quoted.inQuotes_iff.mpr ⟨text, tokens, hscan, hbody⟩
  let json := if single then Quoted.requote body.toList else body.toList
  have hread : (∀ cs, Quoted.decode json = some cs ↔ Quoted.Spells single cs body.toList) ∧
      (Quoted.decode json = none ↔ Quoted.Faulty single body.toList) := by
    apply Quoted.read_iff hrule
    · intro cs hcs
      cases single
      · exact Quoted.decode_of_spells hcs
      · exact Quoted.decode_of_spells (Quoted.spells_requote hcs)
    · intro hfaulty
      cases single
      · exact Quoted.decode_of_faulty hfaulty
      · exact Quoted.decode_of_faulty (Quoted.faulty_requote hfaulty)
  have hstring : (quoted single body).string? = (Quoted.decode json).map String.ofList := rfl
  refine ⟨fun s => ?_, by rw [hstring, Option.map_eq_none_iff, hread.2]⟩
  rw [hstring, Option.map_eq_some_iff, ← hread.1]
  constructor
  · rintro ⟨cs, hcs, rfl⟩
    rwa [String.toList_ofList]
  · intro hs
    exact ⟨s.toList, hs, String.ofList_toList⟩

end TableQuery
