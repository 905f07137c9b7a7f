import TableQuery.Proofs.Token
import TableQuery.Value.Reader
import TableQuery.Value.Text

namespace TableQuery

def NoBlanks (cs : List Char) : Prop := ∀ c ∈ cs, isBlank c = false

namespace NoBlanks

theorem nil : NoBlanks [] := by simp [NoBlanks]

theorem cons {c : Char} {cs : List Char} (hc : isBlank c = false) (hcs : NoBlanks cs) :
    NoBlanks (c :: cs) := List.forall_mem_cons.mpr ⟨hc, hcs⟩

theorem append {first rest : List Char} (hfirst : NoBlanks first) (hrest : NoBlanks rest) :
    NoBlanks (first ++ rest) := by
  intro c hc
  rcases List.mem_append.mp hc with hc | hc
  · exact hfirst c hc
  · exact hrest c hc

theorem subset {cs others : List Char} (h : NoBlanks others) (hsub : cs ⊆ others) :
    NoBlanks cs := fun c hc => h c (hsub hc)

theorem replicate {c : Char} (hc : isBlank c = false) (n : Nat) :
    NoBlanks (List.replicate n c) := by
  intro d hd
  rwa [List.eq_of_mem_replicate hd]

theorem decimalDigits (n : Nat) : NoBlanks (decimalDigits n) := by
  intro c hc
  have hdigit : c.isDigit = true := Nat.isDigit_of_mem_toDigits (by decide) (by decide) hc
  rw [Bool.eq_false_iff]
  intro hblank
  rw [isDigit_of_isBlank hblank] at hdigit
  cases hdigit

/-- The digits that are shown are some of the digits of the number. -/
theorem layout (d : Decimal) : NoBlanks d.layout.1 := by
  refine (decimalDigits d.digits).subset fun c hc => ?_
  have hmem := List.dropWhile_sublist _ |>.subset (List.mem_reverse.mp hc)
  exact List.mem_reverse.mp hmem

theorem positional {digits whole : List Char} (hdigits : NoBlanks digits)
    (hwhole : NoBlanks whole) (point : Int) : NoBlanks (positional digits point whole) := by
  have hzero : isBlank '0' = false := rfl
  have hdot : isBlank '.' = false := rfl
  unfold TableQuery.positional
  split
  · exact cons hzero (cons hdot ((replicate hzero _).append hdigits))
  · split
    · have hfront := hdigits.subset (List.take_subset point.toNat digits)
      have hback := hdigits.subset (List.drop_subset point.toNat digits)
      exact hfront.append (cons hdot hback)
    · exact (hdigits.append (replicate hzero _)).append hwhole

theorem scaled_text (x : Scaled) : NoBlanks x.text.toList := by
  have hsign : NoBlanks (if x.negative then ['-'] else []) := by
    split
    · exact cons rfl nil
    · exact nil
  have hshown : NoBlanks (shortestDecimal .toEven x.units).layout.1 := layout _
  unfold Scaled.text
  simp only
  split
  · rw [String.toList_ofList]
    exact hsign.append (cons rfl (cons rfl (cons rfl nil)))
  · split <;> rw [String.toList_ofList]
    · exact hsign.append (positional hshown (cons rfl (cons rfl nil)) _)
    · refine ((hsign.append ?_).append ?_).append (decimalDigits _)
      · split
        · exact nil
        · next heq => rwa [heq] at hshown
        · next heq =>
          rw [heq] at hshown
          obtain ⟨hd, hrest⟩ := List.forall_mem_cons.mp hshown
          exact cons hd (cons rfl hrest)
      · split <;> exact cons rfl (cons rfl nil)

theorem number_text (n : Number) : NoBlanks n.text.toList := by
  cases n with
  | real x => exact scaled_text x
  | int n =>
    cases n with
    | ofNat m =>
      have htext : (Number.int (Int.ofNat m)).text.toList = TableQuery.decimalDigits m :=
        Nat.toList_repr
      rw [htext]
      exact decimalDigits m
    | negSucc m =>
      have htext : (Number.int (Int.negSucc m)).text = "-" ++ (m + 1).repr := rfl
      rw [htext, String.toList_append, Nat.toList_repr]
      exact append (cons rfl nil) (decimalDigits (m + 1))

end NoBlanks

namespace Value

namespace Reading

theorem begin?_eq_number {stack : List Open} {token : Token} {n : Number}
    (h : begin? stack token = some (done (number n) [])) :
    stack = [] ∧ ∃ spelling, token = .number spelling ∧ Number.read? spelling = some n := by
  unfold begin? at h
  split at h
  · split at h <;> cases h
  · split at h <;> cases h
  · obtain ⟨v, hv, heq⟩ := Option.map_eq_some_iff.mp h
    cases heq
    unfold ofToken? at hv
    split at hv
    case h_4 =>
      obtain ⟨m, hm, heq⟩ := Option.map_eq_some_iff.mp hv
      cases heq
      exact ⟨rfl, _, rfl, hm⟩
    case h_5 =>
      obtain ⟨cs, -, heq⟩ := Option.map_eq_some_iff.mp hv
      cases heq
    all_goals cases hv

/-- A number that is read with nothing open is read at the start. -/
theorem step?_eq_number {reading : Reading} {token : Token} {n : Number}
    (h : reading.step? token = some (done (number n) [])) :
    (reading = value [] ∨ reading = valueOrEnd []) ∧
      ∃ spelling, token = .number spelling ∧ Number.read? spelling = some n := by
  unfold step? at h
  split at h
  case h_1 =>
    obtain ⟨rfl, hspelling⟩ := begin?_eq_number h
    exact ⟨.inl rfl, hspelling⟩
  case h_3 =>
    obtain ⟨rfl, hspelling⟩ := begin?_eq_number h
    exact ⟨.inr rfl, hspelling⟩
  case h_5 | h_6 =>
    obtain ⟨key, -, heq⟩ := Option.map_eq_some_iff.mp h
    cases heq
  all_goals cases h

/-- No token leads back to the start. -/
theorem step?_ne_start {reading : Reading} {token : Token} :
    reading.step? token ≠ some (value []) ∧ reading.step? token ≠ some (valueOrEnd []) := by
  have hbegin : ∀ stack, begin? stack token ≠ some (value []) ∧
      begin? stack token ≠ some (valueOrEnd []) := by
    intro stack
    unfold begin?
    split
    · split <;> simp
    · split <;> simp
    · simp
  unfold step?
  split
  case h_1 => exact hbegin _
  case h_3 => exact hbegin _
  all_goals simp

end Reading

/-- Tokens that are read as a number are one token. -/
theorem exists_token_of_number {tokens : List Token} {n : Number}
    (h : ofTokens? tokens = some (number n)) :
    ∃ spelling, tokens = [.number spelling] ∧ Number.read? spelling = some n := by
  have hrun : (Reading.value []).run? tokens = some (.done (number n) []) := by
    unfold ofTokens? at h
    split at h <;> cases h
    assumption
  -- the last token alone is the number, and nothing leads to where it is read
  rcases List.eq_nil_or_concat' tokens with rfl | ⟨front, last, rfl⟩
  · cases hrun
  · rw [Reading.run?, List.foldlM_append] at hrun
    obtain ⟨before, hfront, hlast⟩ := Option.bind_eq_some_iff.mp hrun
    rw [List.foldlM_cons] at hlast
    obtain ⟨after, hstep, hafter⟩ := Option.bind_eq_some_iff.mp hlast
    cases hafter
    obtain ⟨hstart, spelling, rfl, hread⟩ := Reading.step?_eq_number hstep
    rcases List.eq_nil_or_concat' front with rfl | ⟨others, token, rfl⟩
    · exact ⟨spelling, rfl, hread⟩
    · rw [List.foldlM_append] at hfront
      obtain ⟨earlier, -, htoken⟩ := Option.bind_eq_some_iff.mp hfront
      rw [List.foldlM_cons] at htoken
      obtain ⟨reached, hreached, heq⟩ := Option.bind_eq_some_iff.mp htoken
      cases heq
      rcases hstart with rfl | rfl
      · exact absurd hreached Reading.step?_ne_start.1
      · exact absurd hreached Reading.step?_ne_start.2

end Value

namespace Number

theorem text_value (n : Number) : (Value.number n).text = n.text := by
  simp [Value.text, Value.tokens, Token.text, Token.chars]

/-- A number that is read from its text is spelled by one token. -/
theorem ReadsBack.token {n : Number} (h : n.ReadsBack) :
    (Token.number n.text).Sound ∧ read? n.text = some n := by
  rw [ReadsBack, text_value] at h
  obtain ⟨tokens, hscan, hvalue⟩ := Option.bind_eq_some_iff.mp h
  obtain ⟨spelling, rfl, hread⟩ := Value.exists_token_of_number hvalue
  obtain ⟨rfl, hsound⟩ := Token.sound_number hscan (NoBlanks.number_text n)
  exact ⟨hsound, hread⟩

end Number

end TableQuery
