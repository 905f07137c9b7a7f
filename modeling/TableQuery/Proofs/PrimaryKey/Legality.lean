import TableQuery.Proofs.PrimaryKey.Runs

/-!
Legal keys. Only one write puts in a key without asking whether it is legal: the replacement of a
row that is not there. With that check (`Registry.checked`) every action keeps all keys legal;
without it, exactly the replacements that are `Mutation.PutsIllegal` do not (`keysLegal_call_iff`).
-/

namespace TableQuery

abbrev Value.LegalKey (v : Value) : Prop := v.isValidKey = true

def Store.KeysLegal (store : Store) : Prop :=
  ∀ name rows, store.rows? name = some rows →
    ∀ row ∈ rows, ∃ id, row.id? = some id ∧ id.LegalKey

theorem Keyed.keysLegal {s : State} (h : Keyed Value.LegalKey s) : s.store.KeysLegal :=
  fun name rows hrows row hrow => ((h.tables name rows hrows).isRow row hrow).keyed

namespace Mutation

open Act

def checkedReplace (receiver : Value) (value options : Argument) : Act Value := do
  if receiver.isNull && !value.isNull then
    ask Context.expectSelection
    let row ← resolve value
    ofExcept (do Selection.checkKey true (← replacementKey row))
    return (← replaceMissing (.datum row)).toValue
  else replace receiver value options

-- There is no row to replace, and the value is a row with a key that is neither legal nor taken.
def PutsIllegal (receiver : Value) (value : Argument) (c : Context) : Prop :=
  receiver = .null ∧ value.isNull = false ∧ c.type.isSelection = true ∧
    ∃ row key live next, (resolve value).runFrom c = (.ok row, next) ∧
      replacementKey row = .ok key ∧ next.rows = .ok live ∧ ¬ key.LegalKey ∧
      hasKey key live = false

variable {receiver : Value} {value options : Argument} {c : Context}

theorem resolve_datum (v : Value) : resolve (.datum v) = pure v := rfl

theorem replace_null (h : value.isNull = false) :
    replace .null value options = do
      ask Context.expectSelection
      return (← replaceMissing value).toValue := by
  simp [replace, h]

theorem replaceMissing_eq :
    replaceMissing value = (do replaceMissing (.datum (← resolve value)) : Act Report) := by
  simp [replaceMissing, resolve_datum]

/-- What happens to a row that is to be put in, by its key and whether the key is taken. -/
theorem runFrom_replaceMissing (row : Value) (c : Context) :
    (replaceMissing (.datum row)).runFrom c = match replacementKey row, c.rows with
      | .error e, _ => (.error e, c)
      | .ok _, .error e => (.error e, c)
      | .ok key, .ok live =>
        if hasKey key live then
          (.ok { errors := some 1, inserted := some 0, firstError := some duplicateKey }, c)
        else
          (do setRows (live ++ [row]); return { inserted := some 1 } : Act Report).runFrom c := by
  rw [replaceMissing, resolve_datum, pure_bind, runFrom_bind, runFrom_ofExcept]
  rcases replacementKey row with e | key
  · rfl
  dsimp only
  rw [runFrom_bind, runFrom_ask]
  rcases c.rows with e | live
  · rfl
  dsimp only
  split <;> rfl

/-- A replacement that puts no illegal key in leaves what the checked one leaves. -/
theorem replace_eq_checked (h : ¬ PutsIllegal receiver value c) :
    ((replace receiver value options).runFrom c).2 =
      ((checkedReplace receiver value options).runFrom c).2 := by
  unfold checkedReplace
  split
  · next hmissing =>
    rw [Bool.and_eq_true, Bool.not_eq_true'] at hmissing
    obtain ⟨hnull, hvalue⟩ := hmissing
    cases receiver <;> try cases hnull
    rw [replace_null hvalue, replaceMissing_eq, runFrom_bind, runFrom_bind, runFrom_ask]
    rcases hselection : c.expectSelection with e | _
    · rfl
    have htype : c.type.isSelection = true := by
      unfold Context.expectSelection at hselection
      split at hselection
      · assumption
      · cases hselection
    dsimp only
    rw [runFrom_bind, runFrom_bind, runFrom_bind]
    rcases hrow : (resolve value).runFrom c with ⟨e | row, next⟩
    · rfl
    dsimp only
    rw [runFrom_bind, runFrom_ofExcept]
    rcases hkey : replacementKey row with e | key
    · rw [runFrom_replaceMissing, hkey]
      rfl
    -- a legal key passes the check, an illegal one would be put in unless it is taken
    by_cases hlegal : key.LegalKey
    · have hcheck : (do Selection.checkKey true (← Except.ok key) : Except Error Unit) = .ok () :=
        if_pos hlegal
      rw [hcheck]
      dsimp only
      rw [runFrom_bind]
    · have hcheck : (do Selection.checkKey true (← Except.ok key) : Except Error Unit) =
          .error (.illegalKey true) := if_neg hlegal
      rw [hcheck, runFrom_replaceMissing, hkey]
      rcases hlive : next.rows with e | live
      · rfl
      cases hfree : hasKey key live with
      | true =>
        dsimp only
        rw [if_pos hfree]
        rfl
      | false =>
        exact absurd ⟨rfl, hvalue, htype, row, key, live, next, hrow, hkey, hlive, hlegal, hfree⟩ h
  · rfl

/-- A replacement with an illegal key ends up as the last row of the bound table. -/
theorem exists_rows_of_putsIllegal (options : Argument) (h : PutsIllegal receiver value c) :
    ∃ name live row key, row.id? = some key ∧ ¬ key.LegalKey ∧
      ((replace receiver value options).runFrom c).2.state.store.rows? name =
        some (live ++ [row]) := by
  obtain ⟨rfl, hvalue, htype, row, key, live, next, hrow, hkey, hlive, hlegal, hfree⟩ := h
  obtain ⟨name, hname, -⟩ := Context.rows_eq_ok.mp hlive
  refine ⟨name, live, row, key, replacementKey_ok hkey, hlegal, ?_⟩
  have hselection : c.expectSelection = .ok () := if_pos htype
  have hput : (replaceMissing (.datum row)).runFrom next =
      (.ok { inserted := some 1 }, { next with state :=
        { next.state with store := next.state.store.load name (live ++ [row]) } }) := by
    rw [runFrom_replaceMissing, hkey, hlive]
    dsimp only
    rw [if_neg (by simp [hfree]), runFrom_bind, runFrom_setRows, hname]
    rfl
  rw [replace_null hvalue, replaceMissing_eq, runFrom_bind, runFrom_ask, hselection]
  dsimp only
  rw [runFrom_bind, runFrom_bind, hrow]
  dsimp only
  rw [hput]
  change (next.state.store.load name (live ++ [row])).rows? name = _
  rw [Store.rows?_load, if_pos rfl]

theorem checkedReplace_keeps {type : TypeTag} {table : Option String}
    (hvalue : value.Good (Keyed Value.LegalKey) Value.Distinct) (hreceiver : receiver.Distinct) :
    Keeps (Framed (Keyed Value.LegalKey) type table) Value.Distinct
      (checkedReplace receiver value options) := by
  unfold checkedReplace
  split
  · refine Keeps.bind Keeps.check fun _ _ => ?_
    refine Keeps.bind (Keeps.resolve hvalue) fun row hrow => ?_
    refine Keeps.bind (P := fun _ => ∀ key, row.id? = some key → key.LegalKey) ?_ fun _ hkey => ?_
    · refine Keeps.ofExcept fun _ hcheck => ?_
      obtain ⟨key, hkey, hlegal⟩ := exists_of_bind_ok hcheck
      intro id hid
      obtain rfl := Option.some.inj (hid.symm.trans (replacementKey_ok hkey))
      unfold Selection.checkKey at hlegal
      split at hlegal
      · assumption
      · cases hlegal
    · have hdatum : Keeps (Framed (Keyed Value.LegalKey) type table) (fun new => new = row)
          (resolve (.datum row)) := Keeps.pure rfl
      refine Keeps.map (replaceMissing_keeps hdatum fun new hnew => ?_) fun _ _ =>
        Report.distinct_toValue _
      rw [hnew]
      exact ⟨hrow, hkey⟩
  · next hpresent =>
    refine replace_keeps_of_missing admission_isValidKey options hvalue hreceiver ?_
    intro hnull hvalue
    simp [hnull, hvalue, Value.isNull] at hpresent

end Mutation

theorem Mutation.keysLegal_replace_iff {receiver : Value} {value : Argument} {c : Context}
    (options : Argument) (hc : Keyed Value.LegalKey c.state) (hreceiver : receiver.Distinct)
    (hvalue : value.Good (Keyed Value.LegalKey) Value.Distinct) :
    ((replace receiver value options).runFrom c).2.state.store.KeysLegal ↔
      ¬ PutsIllegal receiver value c := by
  constructor
  · intro hlegal hputs
    obtain ⟨name, live, row, key, hid, hkey, hrows⟩ := exists_rows_of_putsIllegal options hputs
    obtain ⟨id, hid', hlegalId⟩ := hlegal name _ hrows row (by simp)
    obtain rfl := Option.some.inj (hid.symm.trans hid')
    exact hkey hlegalId
  · intro hputs
    have hkeeps : Keeps (Framed (Keyed Value.LegalKey) c.type c.binding.table) Value.Distinct
        (checkedReplace receiver value options) := checkedReplace_keeps hvalue hreceiver
    rw [replace_eq_checked hputs]
    exact (hkeeps c ⟨rfl, rfl, hc⟩).1.state.keysLegal

theorem replace_of_name {e : Entry} (he : e ∈ catalogue) (hname : e.name = "replace") :
    e = ⟨"replace", .oneOrTwo, .datum, .binary Mutation.replace⟩ := by
  rcases mutation_or_not_writes he with hwrites | hreads
  · simp only [Mutation.entries, List.mem_cons, List.not_mem_nil, or_false] at hwrites
    rcases hwrites with rfl | rfl | rfl | rfl
    · exact absurd hname (by decide)
    · exact absurd hname (by decide)
    · rfl
    · exact absurd hname (by decide)
  · rw [hname] at hreads
    exact absurd (by decide) hreads

def Registry.checked : Registry :=
  (builtin.register ⟨"replace", .oneOrTwo, .datum, .binary Mutation.checkedReplace⟩).1

theorem Registry.describe_checked (action : String) : checked.describe action =
    if action = "replace" then
      .ok ⟨.oneOrTwo, .datum, .binary Mutation.checkedReplace⟩
    else builtin.describe action := by
  have hactions : checked.actions =
      ("replace", ⟨.oneOrTwo, .datum, .binary Mutation.checkedReplace⟩) :: builtin.actions := rfl
  unfold describe
  rw [hactions, Assoc.lookup_cons]
  by_cases hname : action = "replace"
  · rw [if_pos hname, if_pos hname]
  · rw [if_neg hname, if_neg hname]

theorem Registry.keepsKeys_checked : checked.KeepsKeys Value.LegalKey := by
  intro action d hd
  rw [describe_checked] at hd
  split at hd
  · cases hd
    exact fun _ _ _ _ hv h => Mutation.checkedReplace_keeps (Argument.good_getD h 0) hv
  · next hname =>
    obtain ⟨e, he, rfl, rfl⟩ := describe_builtin hd
    rcases mutation_or_not_writes he with hwrites | hreads
    · exact Mutation.entries_keep admission_isValidKey hwrites fun h => absurd h hname
    · exact keeps_of_not_writes Value.hereditary_distinct he hreads

/-- A single action leaves the keys of legal tables legal, unless it is a replacement that puts an
illegal key in. -/
theorem keysLegal_call_iff {e : Entry} (he : e ∈ catalogue) {receiver : Value}
    {args : List Argument} {c : Context} (hc : Keyed Value.LegalKey c.state)
    (hreceiver : receiver.Distinct)
    (hargs : ∀ a ∈ args, a.Good (Keyed Value.LegalKey) Value.Distinct) :
    ((e.implementation.call receiver args).runFrom c).2.state.store.KeysLegal ↔
      ¬ (e.name = "replace" ∧ Mutation.PutsIllegal receiver (args[0]?.getD .undefined) c) := by
  by_cases hname : e.name = "replace"
  · obtain rfl := replace_of_name he hname
    simp only [true_and]
    exact Mutation.keysLegal_replace_iff .undefined hc hreceiver (Argument.good_getD hargs 0)
  · have hkeeps : e.implementation.Keeps (Keyed Value.LegalKey) Value.Distinct := by
      rcases mutation_or_not_writes he with hwrites | hreads
      · exact Mutation.entries_keep admission_isValidKey hwrites fun h => absurd h hname
      · exact keeps_of_not_writes Value.hereditary_distinct he hreads
    have hafter := hkeeps receiver args c.type c.binding.table hreceiver hargs c ⟨rfl, rfl, hc⟩
    simp only [hname, false_and, not_false_eq_true, iff_true]
    exact hafter.1.state.keysLegal

end TableQuery
