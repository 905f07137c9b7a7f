import TableQuery.Database
import TableQuery.Text.Lines
import TableQuery.Proofs.Token

/-!
Blanks around a query. In front of a text they are skipped. Behind it they end the last token,
which the end of the text does as well, with one exception: a number that ends in a point is no
token, while a blank leaves the number and the point. No query ends in a point, so the text is
refused either way (`Term.parse_of_blanks`).
-/

namespace TableQuery

namespace Scan

theorem inQuotes_of_blanks (single : Bool) {blanks : List Char}
    (h : ∀ c ∈ blanks, isBlank c = true) : Quoted.InQuotes single blanks := by
  induction blanks with
  | nil => exact .nil
  | cons c rest ih =>
    obtain ⟨hc, hrest⟩ := List.forall_mem_cons.mp h
    have hplain : c ≠ '\\' ∧ c ≠ Token.quote single := by
      simp only [isBlank, Bool.or_eq_true, beq_iff_eq] at hc
      rcases hc with ((rfl | rfl) | rfl) | rfl <;> cases single <;> decide
    exact .plain hplain.1 hplain.2 (ih hrest)

/-- An open quotation takes in any blanks and stays open. -/
theorem run?_quoted_blanks (single : Bool) {blanks : List Char} (read : List Char)
    (h : ∀ c ∈ blanks, isBlank c = true) : (quoted single read).run? blanks = none := by
  have hrun := (inQuotes_of_blanks single h).run?_quoted read []
  rwa [List.append_nil] at hrun

theorem run?_idle_blanks {blanks : List Char} (h : ∀ c ∈ blanks, isBlank c = true) :
    idle.run? blanks = some [] := by
  simpa [run?, finish?] using run?_blanks h []

def Ends (without withBlanks : Option (List Token)) : Prop :=
  withBlanks = without ∨ without = none ∧ ∃ tokens, withBlanks = some (tokens ++ [.dot])

theorem Ends.map_append {a b : Option (List Token)} (h : Ends a b) (tokens : List Token) :
    Ends (a.map (tokens ++ ·)) (b.map (tokens ++ ·)) := by
  obtain rfl | ⟨rfl, more, rfl⟩ := h
  · exact .inl rfl
  · exact .inr ⟨rfl, tokens ++ more, by simp⟩

/-- A number in front of blanks: a blank ends it where the end of the text would, or shows that it
is none. -/
theorem ends_number (part : NumberPart) (read : List Char) {c : Char} {rest : List Char}
    (hc : isBlank c = true) (hrest : ∀ c ∈ rest, isBlank c = true) :
    Ends (finish? (number part read)) ((number part read).run? (c :: rest)) := by
  have hblanks : idle.run? (c :: rest) = some [] :=
    run?_idle_blanks (List.forall_mem_cons.mpr ⟨hc, hrest⟩)
  have hword : isWordChar c = false := isWordChar_of_isBlank hc
  have hdigit : c.isDigit = false := isDigit_of_isBlank hc
  have hne (d : Char) (hd : isBlank d = false) : (c == d) = false := by
    rw [beq_eq_false_iff_ne]
    rintro rfl
    exact absurd hc (by simp [hd])
  have hends {part : NumberPart}
      (hstep : (number part read).step? c = endBefore? c [Token.ofNumber read]) :
      (number part read).run? (c :: rest) = some [Token.ofNumber read] := by
    rw [run?_of_endBefore hstep, hblanks]
    rfl
  cases part with
  | minus | mark | markSign =>
    refine .inl ?_
    simp [run?, step?, numberStep?, finish?, hdigit, hne '0' rfl, hne '+' rfl, hne '-' rfl]
  | zero | whole | fraction | exponent =>
    refine .inl (hends ?_)
    simp [step?, numberStep?, hdigit, hword, hne '.' rfl, hne 'e' rfl, hne 'E' rfl]
  | point =>
    -- the point behind the number becomes a token of its own
    have hstep : (number .point read).step? c = endBefore? c [Token.ofNumber read.tail, .dot] := by
      simp [step?, numberStep?, hdigit]
    refine .inr ⟨rfl, [Token.ofNumber read.tail], ?_⟩
    rw [run?_of_endBefore hstep, hblanks]
    rfl

theorem ends_blanks (scan : Scan) {blanks : List Char} (h : ∀ c ∈ blanks, isBlank c = true) :
    Ends scan.finish? (scan.run? blanks) := by
  cases blanks with
  | nil => exact .inl rfl
  | cons c rest =>
    obtain ⟨hc, hrest⟩ := List.forall_mem_cons.mp h
    cases scan with
    | idle => exact .inl (run?_idle_blanks h)
    | word read =>
      refine .inl ?_
      have hstep : (word read).step? c = endBefore? c [Token.ofWord read] := by
        simp [step?, isWordChar_of_isBlank hc]
      rw [run?_of_endBefore hstep, run?_idle_blanks h]
      rfl
    | number part read => exact ends_number part read hc hrest
    | quoted single read => exact .inl (run?_quoted_blanks single read h)
    | escaped single read =>
      refine .inl ?_
      have hstep : (escaped single read).step? c = some ([], quoted single (c :: read)) := rfl
      rw [run?_of_step hstep]
      exact run?_quoted_blanks single (c :: read) hrest

/-- By induction on the characters in front of the blanks, which are read the same with them. -/
theorem ends_append_blanks (cs : List Char) {blanks : List Char}
    (h : ∀ c ∈ blanks, isBlank c = true) : ∀ scan : Scan,
    Ends (scan.run? cs) (scan.run? (cs ++ blanks)) := by
  induction cs with
  | nil => exact fun scan => ends_blanks scan h
  | cons c cs ih =>
    intro scan
    simp only [List.cons_append, run?]
    cases scan.step? c with
    | none => exact .inl rfl
    | some next => exact (ih next.2).map_append next.1

end Scan

namespace Text

/-- A text is its trimmed form between white space. -/
theorem exists_toList_eq_trim (text : String) : ∃ before after : List Char,
    text.toList = before ++ (trim text).toList ++ after ∧
      (∀ c ∈ before, isWhiteSpace c = true) ∧ ∀ c ∈ after, isWhiteSpace c = true := by
  let rest := text.toList.dropWhile isWhiteSpace
  refine ⟨text.toList.takeWhile isWhiteSpace, (rest.reverse.takeWhile isWhiteSpace).reverse,
    ?_, fun c hc => List.mem_takeWhile_imp hc,
    fun c hc => List.mem_takeWhile_imp (List.mem_reverse.mp hc)⟩
  have hrest : (trim text).toList ++ (rest.reverse.takeWhile isWhiteSpace).reverse = rest := by
    rw [trim, String.toList_ofList, trimChars, ← List.reverse_append,
      List.takeWhile_append_dropWhile, List.reverse_reverse]
  rw [List.append_assoc, hrest, List.takeWhile_append_dropWhile]

end Text

namespace Term

/-- A point asks for what comes behind it, so no query ends in one. -/
theorem ofTokens?_append_dot (tokens : List Token) : ofTokens? (tokens ++ [.dot]) = none := by
  have hstep (reading : Reading) (t : Term) (stack : List Open) :
      reading.step? .dot ≠ some (.done t stack) := by
    unfold Reading.step?
    split <;> simp_all [Reading.begin?, Reading.continue?]
  have hrun (t : Term) : (Reading.term []).run? (tokens ++ [.dot]) ≠ some (.done t []) := by
    intro h
    rw [Reading.run?, List.foldlM_append] at h
    obtain ⟨reading, -, hlast⟩ := Option.bind_eq_some_iff.mp h
    exact hstep reading t [] (by simpa using hlast)
  rw [ofTokens?]
  split
  · exact absurd (by assumption) (hrun _)
  · rfl

/-- Blanks at the ends of a query do not matter. -/
theorem parse_of_blanks {text inner : String} {before after : List Char}
    (htext : text.toList = before ++ inner.toList ++ after)
    (hbefore : ∀ c ∈ before, isBlank c = true) (hafter : ∀ c ∈ after, isBlank c = true) :
    parse text = parse inner := by
  have hscan : Token.scan? text = Scan.idle.run? (inner.toList ++ after) := by
    rw [Token.scan?, htext, List.append_assoc, Scan.run?_blanks hbefore]
  obtain h | ⟨hnone, tokens, hdot⟩ := Scan.ends_append_blanks inner.toList hafter .idle
  · rw [parse, hscan, h, parse, Token.scan?]
  · have hinner : parse inner = .error (.parse .malformed) := by
      rw [parse, Token.scan?, hnone]
    rw [hinner, parse, hscan, hdot]
    simp only [ofTokens?_append_dot]

/-- Trimming a query takes nothing from it where queries allow the white space that it takes. -/
theorem parse_trim {text : String}
    (h : ∀ c ∈ text.toList, Text.isWhiteSpace c = true → isBlank c = true) :
    parse (Text.trim text) = parse text := by
  obtain ⟨before, after, htext, hbefore, hafter⟩ := Text.exists_toList_eq_trim text
  refine (parse_of_blanks htext (fun c hc => h c ?_ (hbefore c hc))
    fun c hc => h c ?_ (hafter c hc)).symm
  · rw [htext]
    simp [hc]
  · rw [htext]
    simp [hc]

end Term

namespace Database

theorem run_trim {text : String}
    (h : ∀ c ∈ text.toList, Text.isWhiteSpace c = true → isBlank c = true) (db : Database) :
    db.run (Text.trim text) = db.run text := by
  simp only [run, runIn, Term.parse_trim h]

end Database

end TableQuery
