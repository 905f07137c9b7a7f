import TableQuery.Spelling
import TableQuery.Term.Reader

namespace TableQuery.Quoted

section Decode

theorem hexValue?_of_unit? {a b c d : Char} {n : Nat} (h : unit? a b c d = some n) :
    ∀ x ∈ [a, b, c, d], ∃ m, hexValue? x = some m := by
  unfold unit? at h
  obtain ⟨first, hfirst, h⟩ := Option.bind_eq_some_iff.mp h
  obtain ⟨second, hsecond, h⟩ := Option.bind_eq_some_iff.mp h
  obtain ⟨third, hthird, h⟩ := Option.bind_eq_some_iff.mp h
  obtain ⟨fourth, hfourth, -⟩ := Option.bind_eq_some_iff.mp h
  intro x hx
  simp only [List.mem_cons, List.not_mem_nil, or_false] at hx
  rcases hx with rfl | rfl | rfl | rfl
  · exact ⟨first, hfirst⟩
  · exact ⟨second, hsecond⟩
  · exact ⟨third, hthird⟩
  · exact ⟨fourth, hfourth⟩

/-- A hexadecimal digit is neither a backslash nor a quote. -/
theorem ne_of_hexValue? {c : Char} {n : Nat} (h : hexValue? c = some n) :
    c ≠ '\\' ∧ ∀ single, c ≠ Token.quote single := by
  have hne (d : Char) (hd : hexValue? d = none) : c ≠ d := by
    rintro rfl
    exact absurd h (by simp [hd])
  refine ⟨hne '\\' rfl, fun single => ?_⟩
  cases single
  · exact hne '"' rfl
  · exact hne '\'' rfl

theorem ne_of_unit? {a b c d : Char} {n : Nat} (h : unit? a b c d = some n) :
    ∀ x ∈ [a, b, c, d], x ≠ '\\' ∧ ∀ single, x ≠ Token.quote single := by
  intro x hx
  obtain ⟨m, hm⟩ := hexValue?_of_unit? h x hx
  exact ne_of_hexValue? hm

theorem decode_plain {c : Char} (control : ¬ c < ' ') (escape : c ≠ '\\') (quote : c ≠ '"')
    (rest : List Char) : decode (c :: rest) = (decode rest).map (c :: ·) := by
  rw [decode]
  · rw [if_neg (by simp [control, escape, quote])]
  · intro a b d e more hc
    exact absurd hc escape
  · intro d more hc
    exact absurd hc escape

theorem decode_letter {e c : Char} (meaning : escapeMeaning? e = some c) (rest : List Char) :
    decode ('\\' :: e :: rest) = (decode rest).map (c :: ·) := by
  -- the case of a unit comes first in `decode`
  have hu : e ≠ 'u' := by
    intro he
    subst he
    simp [escapeMeaning?] at meaning
  rw [decode]
  · simp only [meaning]
  · intro a b d f more he
    exact absurd he hu

theorem isLow_of_isHigh {n : Nat} (h : isHigh n = true) : isLow n = false := by
  simp only [isHigh, isLow, Bool.and_eq_true, decide_eq_true_eq, Bool.and_eq_false_iff,
    decide_eq_false_iff_not] at h ⊢
  omega

theorem decode_unit {a b c d : Char} {n : Nat} (value : unit? a b c d = some n)
    (high : isHigh n = false) (low : isLow n = false) (rest : List Char) :
    decode ('\\' :: 'u' :: a :: b :: c :: d :: rest) =
      (decode rest).map (Char.ofNat n :: ·) := by
  rw [decode]
  simp [value, high, low]

theorem decode_pair {a b c d e f g h : Char} {m n : Nat} (first : unit? a b c d = some m)
    (second : unit? e f g h = some n) (high : isHigh m = true) (low : isLow n = true)
    (rest : List Char) :
    decode ('\\' :: 'u' :: a :: b :: c :: d :: '\\' :: 'u' :: e :: f :: g :: h :: rest) =
      (decode rest).map (ofPair m n :: ·) := by
  have hm : isLow m = false := isLow_of_isHigh high
  rw [decode]
  simp [first, second, high, low, hm]

/-- A piece that spells a character is read as that character. -/
theorem decode_append {c : Char} {piece : List Char} (h : SpellsChar false c piece)
    (rest : List Char) : decode (piece ++ rest) = (decode rest).map (c :: ·) := by
  cases h with
  | plain control escape quote => exact decode_plain control escape quote rest
  | letter meaning => exact decode_letter meaning rest
  | apostrophe quotes => cases quotes
  | unit value high low => exact decode_unit value high low rest
  | pair first second high low => exact decode_pair first second high low rest

theorem decode_of_spells {cs body : List Char} (h : Spells false cs body) :
    decode body = some cs := by
  induction h with
  | nil => rfl
  | @cons c cs piece body first _ ih =>
    calc decode (piece ++ body)
        = (decode body).map (c :: ·) := decode_append first body
      _ = some (c :: cs) := by rw [ih, Option.map_some]

end Decode

section Requote

theorem requote_plain {c : Char} (escape : c ≠ '\\') (quote : c ≠ '"') (rest : List Char) :
    requote (c :: rest) = c :: requote rest := by
  rw [requote]
  · rw [if_neg quote]
  · intro hc
    exact absurd hc escape
  · intro d more hc
    exact absurd hc escape

/-- The digits of a unit stay as they are. -/
theorem requote_digits {a b c d : Char} {n : Nat} (value : unit? a b c d = some n)
    (rest : List Char) :
    requote (a :: b :: c :: d :: rest) = a :: b :: c :: d :: requote rest := by
  have plain (x : Char) (hx : x ∈ [a, b, c, d]) (more : List Char) :
      requote (x :: more) = x :: requote more := by
    obtain ⟨escape, quote⟩ := ne_of_unit? value x hx
    exact requote_plain escape (quote false) more
  rw [plain a (by simp), plain b (by simp), plain c (by simp), plain d (by simp)]

theorem requote_escape {e : Char} (h : e ≠ '\'') (rest : List Char) :
    requote ('\\' :: e :: rest) = '\\' :: e :: requote rest := by
  rw [requote, if_neg h]

theorem requote_unit {a b c d : Char} {n : Nat} (value : unit? a b c d = some n)
    (rest : List Char) :
    requote ('\\' :: 'u' :: a :: b :: c :: d :: rest) =
      '\\' :: 'u' :: a :: b :: c :: d :: requote rest := by
  rw [requote_escape (by decide), requote_digits value]

/-- A piece for single quotes becomes one for double quotes that spells the same character. -/
theorem requote_append {c : Char} {piece : List Char} (h : SpellsChar true c piece)
    (rest : List Char) :
    ∃ respelled, SpellsChar false c respelled ∧
      requote (piece ++ rest) = respelled ++ requote rest := by
  cases h with
  | plain control escape quote =>
    -- a double quote stands for itself in single quotes only
    by_cases hc : c = '"'
    · subst hc
      exact ⟨['\\', '"'], .letter rfl, rfl⟩
    · exact ⟨[c], .plain control escape hc, requote_plain escape hc rest⟩
  | @letter e _ meaning =>
    have he : e ≠ '\'' := by
      intro he
      subst he
      simp [escapeMeaning?] at meaning
    exact ⟨['\\', e], .letter meaning, requote_escape he rest⟩
  | apostrophe quotes => exact ⟨['\''], .plain (by decide) (by decide) (by decide), rfl⟩
  | unit value high low => exact ⟨_, .unit value high low, requote_unit value rest⟩
  | pair first second high low =>
    refine ⟨_, .pair first second high low, ?_⟩
    simp only [List.cons_append, List.nil_append]
    rw [requote_unit first, requote_unit second]

theorem spells_requote {cs body : List Char} (h : Spells true cs body) :
    Spells false cs (requote body) := by
  induction h with
  | nil => exact .nil
  | @cons c cs piece body first _ ih =>
    obtain ⟨respelled, hrespelled, heq⟩ := requote_append first body
    rw [heq]
    exact .cons hrespelled ih

end Requote

section Scan

variable {single : Bool}

/-- A unit may stand in quotes of either kind. -/
theorem inQuotes_unit {a b c d : Char} {n : Nat} (value : unit? a b c d = some n)
    {rest : List Char} (h : InQuotes single rest) :
    InQuotes single ('\\' :: 'u' :: a :: b :: c :: d :: rest) := by
  have plain (x : Char) (hx : x ∈ [a, b, c, d]) {more : List Char}
      (hmore : InQuotes single more) : InQuotes single (x :: more) := by
    obtain ⟨escape, quote⟩ := ne_of_unit? value x hx
    exact .plain escape (quote single) hmore
  exact .escaped 'u' <| plain a (by simp) <| plain b (by simp) <| plain c (by simp) <|
    plain d (by simp) h

theorem SpellsChar.inQuotes {c : Char} {piece rest : List Char} (h : SpellsChar single c piece)
    (hrest : InQuotes single rest) : InQuotes single (piece ++ rest) := by
  cases h with
  | plain control escape quote => exact .plain escape quote hrest
  | letter meaning => exact .escaped _ hrest
  | apostrophe quotes => exact .escaped _ hrest
  | unit value high low => exact inQuotes_unit value hrest
  | pair first second high low => exact inQuotes_unit first (inQuotes_unit second hrest)

theorem Spells.inQuotes {cs body : List Char} (h : Spells single cs body) :
    InQuotes single body := by
  induction h with
  | nil => exact .nil
  | cons first _ ih => exact first.inQuotes ih

/-- Scanning stays in the quotes over such a body. -/
theorem InQuotes.run?_quoted {body : List Char} (h : InQuotes single body)
    (read more : List Char) :
    (Scan.quoted single read).run? (body ++ more) =
      (Scan.quoted single (body.reverse ++ read)).run? more := by
  induction h generalizing read with
  | nil => rfl
  | @plain c rest escape quote _ ih =>
    have hstep : (Scan.quoted single read).step? c = some ([], .quoted single (c :: read)) := by
      simp [Scan.step?, escape, quote]
    calc (Scan.quoted single read).run? (c :: rest ++ more)
        = (Scan.quoted single (c :: read)).run? (rest ++ more) := by simp [Scan.run?, hstep]
      _ = (Scan.quoted single (rest.reverse ++ c :: read)).run? more := ih (c :: read)
      _ = (Scan.quoted single ((c :: rest).reverse ++ read)).run? more := by simp
  | @escaped rest c _ ih =>
    calc (Scan.quoted single read).run? ('\\' :: c :: rest ++ more)
        = (Scan.quoted single (c :: '\\' :: read)).run? (rest ++ more) := by
          simp [Scan.run?, Scan.step?]
      _ = (Scan.quoted single (rest.reverse ++ c :: '\\' :: read)).run? more := ih _
      _ = (Scan.quoted single (('\\' :: c :: rest).reverse ++ read)).run? more := by simp

end Scan

section Encode

theorem hexValue?_hexDigit {n : Nat} (h : n < 16) : hexValue? (hexDigit n) = some n := by
  revert n
  decide

/-- The control characters without a letter of their own are written as a unit. -/
theorem spellsChar_control {c : Char} (h : c < ' ') :
    SpellsChar false c ['\\', 'u', '0', '0', hexDigit (c.toNat / 16), hexDigit (c.toNat % 16)] := by
  have hc : c.toNat < 32 := h
  have value : unit? '0' '0' (hexDigit (c.toNat / 16)) (hexDigit (c.toNat % 16)) =
      some c.toNat := by
    have hzero : hexValue? '0' = some 0 := rfl
    simp only [unit?, hzero, hexValue?_hexDigit (show c.toNat / 16 < 16 by omega),
      hexValue?_hexDigit (show c.toNat % 16 < 16 by omega)]
    simp only [Option.bind_eq_bind, Option.bind_some, Option.pure_def, Option.some.injEq]
    omega
  have high : isHigh c.toNat = false := by
    simp only [isHigh, Bool.and_eq_false_iff, decide_eq_false_iff_not]
    omega
  have low : isLow c.toNat = false := by
    simp only [isLow, Bool.and_eq_false_iff, decide_eq_false_iff_not]
    omega
  have hspells : SpellsChar false (Char.ofNat c.toNat) _ := .unit value high low
  rwa [Char.ofNat_toNat] at hspells

theorem spellsChar_encodeChar (c : Char) : SpellsChar false c (encodeChar c) := by
  unfold encodeChar
  split
  -- all other cases are one-letter escapes
  case h_8 hquote hescape _ _ _ _ _ =>
    split
    · next h => exact spellsChar_control h
    · next h => exact .plain h hescape hquote
  all_goals exact .letter rfl

theorem spells_encode (cs : List Char) : Spells false cs (encode cs) := by
  induction cs with
  | nil => exact .nil
  | cons c rest ih =>
    rw [encode, List.flatMap_cons]
    exact .cons (spellsChar_encodeChar c) ih

end Encode

end TableQuery.Quoted

namespace TableQuery.Token

theorem IsString.string?_eq {s : String} {token : Token} (h : token.IsString s) :
    token.string? = some s := by
  obtain ⟨single, body, rfl, hspells⟩ := h
  have hdecode : Quoted.decode (if single then Quoted.requote body.toList else body.toList) =
      some s.toList := by
    cases single
    · exact Quoted.decode_of_spells hspells
    · exact Quoted.decode_of_spells (Quoted.spells_requote hspells)
  rw [string?, hdecode, Option.map_some, String.ofList_toList]

theorem isString_ofString (s : String) : (ofString s).IsString s := by
  refine ⟨false, String.ofList (Quoted.encode s.toList), rfl, ?_⟩
  rw [String.toList_ofList]
  exact Quoted.spells_encode s.toList

end TableQuery.Token
