import Mathlib.Data.List.Basic
import TableQuery.Proofs.Term.Reader

namespace TableQuery.Term

theorem foldItems_eq (items : List Term) : foldItems items = items.map fold := by
  induction items with
  | nil => rfl
  | cons t rest ih => rw [foldItems, ih, List.map_cons]

theorem foldFields_eq (fields : List (String × Term)) :
    foldFields fields = fields.map fun pair => (pair.1, pair.2.fold) := by
  induction fields with
  | nil => rfl
  | cons pair rest ih => rw [foldFields, ih, List.map_cons]

/-- Terms that are all datums are the datums of their values. -/
theorem eq_map_datum {items : List Term} {vs : List Value} (h : items.mapM datum? = some vs) :
    items = vs.map datum := by
  induction items generalizing vs with
  | nil =>
    rw [List.mapM_nil] at h
    cases h
    rfl
  | cons t rest ih =>
    rw [List.mapM_cons] at h
    obtain ⟨v, hv, h⟩ := Option.bind_eq_some_iff.mp h
    obtain ⟨others, hothers, h⟩ := Option.bind_eq_some_iff.mp h
    cases h
    rw [datum_of_datum? hv, ih hothers, List.map_cons]

theorem eq_map_datum_fields {fields : List (String × Term)} {pairs : List (String × Value)}
    (h : (fields.mapM fun pair => pair.2.datum?.map fun v => (pair.1, v)) = some pairs) :
    fields = pairs.map fun pair => (pair.1, datum pair.2) := by
  induction fields generalizing pairs with
  | nil =>
    rw [List.mapM_nil] at h
    cases h
    rfl
  | cons field rest ih =>
    rw [List.mapM_cons] at h
    obtain ⟨pair, hpair, h⟩ := Option.bind_eq_some_iff.mp h
    obtain ⟨others, hothers, h⟩ := Option.bind_eq_some_iff.mp h
    obtain ⟨v, hv, rfl⟩ := Option.map_eq_some_iff.mp hpair
    cases h
    rw [ih hothers, List.map_cons, ← datum_of_datum? hv]

/-- Datums mention no row. -/
theorem referencesRow_ofItems (items : List Term) :
    (ofItems items).referencesRow = (array items).referencesRow := by
  unfold ofItems
  split
  · next vs hvs =>
    rw [eq_map_datum hvs, referencesRow, referencesRow]
    symm
    rw [anyReferencesRow_eq_false]
    intro t ht
    obtain ⟨v, -, rfl⟩ := List.mem_map.mp ht
    rfl
  · rfl

theorem referencesRow_ofFields (fields : List (String × Term)) :
    (ofFields fields).referencesRow = (object fields).referencesRow := by
  unfold ofFields
  split
  · next pairs hpairs =>
    rw [eq_map_datum_fields hpairs, referencesRow, referencesRow]
    symm
    rw [anyFieldReferencesRow_eq_false]
    intro field hfield
    obtain ⟨pair, -, rfl⟩ := List.mem_map.mp hfield
    rfl
  · rfl

/-- Folding neither adds nor drops a mention of the row, so it defers the same arguments. -/
theorem referencesRow_fold (t : Term) : t.fold.referencesRow = t.referencesRow := by
  have hitems {items : List Term} (h : ∀ t ∈ items, t.fold.referencesRow = t.referencesRow) :
      anyReferencesRow (items.map fold) = anyReferencesRow items := by
    induction items with
    | nil => rfl
    | cons t rest ih =>
      rw [List.map_cons, anyReferencesRow, anyReferencesRow, h t List.mem_cons_self,
        ih fun u hu => h u (List.mem_cons_of_mem t hu)]
  induction t using Term.induction with
  | table name => rfl
  | datum v => rfl
  | row => rfl
  | array items ih =>
    rw [fold, referencesRow_ofItems, foldItems_eq, referencesRow, referencesRow]
    exact hitems ih
  | object fields ih =>
    rw [fold, referencesRow_ofFields, foldFields_eq, referencesRow, referencesRow]
    induction fields with
    | nil => rfl
    | cons pair rest ihf =>
      rw [List.map_cons, anyFieldReferencesRow, anyFieldReferencesRow, ih pair List.mem_cons_self,
        ihf fun other hother => ih other (List.mem_cons_of_mem pair hother)]
  | call action receiver args ihr iha =>
    rw [fold, foldItems_eq, referencesRow, referencesRow, ihr, hitems iha]

variable (registry : Registry)

theorem runIn_datum (v : Value) (current : Option Value) :
    (datum v).runIn registry current = pure v := by
  rw [runIn, evaluateIn]
  rfl

theorem evaluateItems_datums (vs : List Value) (current : Option Value) :
    evaluateItems registry (vs.map datum) current = pure vs := by
  rw [evaluateItems_eq]
  induction vs with
  | nil => rfl
  | cons v rest ih =>
    rw [List.map_cons, List.mapM_cons, runIn_datum, pure_bind, ih, pure_bind]

theorem evaluateFields_datums (pairs : List (String × Value)) (current : Option Value) :
    evaluateFields registry (pairs.map fun pair => (pair.1, datum pair.2)) current = pure pairs := by
  rw [evaluateFields_eq]
  induction pairs with
  | nil => rfl
  | cons pair rest ih =>
    rw [List.map_cons, List.mapM_cons, runIn_datum, pure_bind, pure_bind, ih, pure_bind]

/-- A literal and the datum that it may be folded to. -/
theorem evaluateIn_ofItems (items : List Term) (current : Option Value) :
    (ofItems items).evaluateIn registry current = (array items).evaluateIn registry current := by
  unfold ofItems
  split
  · next vs hvs =>
    rw [eq_map_datum hvs, evaluateIn, evaluateIn, evaluateItems_datums, pure_bind]
  · rfl

/-- Of the values of one name the last one counts, whether the fields are set when the literal is
read or when it is evaluated. -/
theorem evaluateIn_ofFields (fields : List (String × Term)) (current : Option Value) :
    (ofFields fields).evaluateIn registry current =
      (object fields).evaluateIn registry current := by
  unfold ofFields
  split
  · next pairs hpairs =>
    rw [eq_map_datum_fields hpairs, evaluateIn, evaluateIn, evaluateFields_datums, pure_bind]
  · rfl

theorem runIn_congr {t u : Term} {current : Option Value}
    (h : t.evaluateIn registry current = u.evaluateIn registry current) :
    t.runIn registry current = u.runIn registry current := by
  rw [runIn, runIn, h]

/-- An argument whose term means the same for every row is the same argument. -/
theorem argumentIn_congr {t u : Term} (hrow : t.referencesRow = u.referencesRow)
    (h : ∀ current, t.evaluateIn registry current = u.evaluateIn registry current)
    (current : Option Value) : t.argumentIn registry current = u.argumentIn registry current := by
  have hrun (row : Option Value) : t.runIn registry row = u.runIn registry row :=
    runIn_congr registry (h row)
  unfold argumentIn
  rw [hrow, hrun current]
  -- the rows that a deferred argument will be given are not known yet
  have hdeferred : (fun inner : Option Value => t.runIn registry (inner.or current)) =
      fun inner => u.runIn registry (inner.or current) := funext fun inner => hrun _
  rw [hdeferred]

/-- Evaluation does not tell a term from its folding, by induction on the term; the current row is
general because an argument may be evaluated for a row that it does not know yet. -/
theorem evaluateIn_fold (t : Term) (current : Option Value) :
    t.fold.evaluateIn registry current = t.evaluateIn registry current := by
  induction t using Term.induction generalizing current with
  | table name => rfl
  | datum v => rfl
  | row => rfl
  | array items ih =>
    have hitems : (items.mapM fun t => t.fold.runIn registry current) =
        items.mapM fun t => t.runIn registry current :=
      mapM_congr fun t ht => runIn_congr registry (ih t ht current)
    rw [fold, evaluateIn_ofItems, foldItems_eq, evaluateIn, evaluateIn, evaluateItems_eq,
      evaluateItems_eq, List.mapM_map, ← hitems]
    rfl
  | object fields ih =>
    have hfields : (fields.mapM fun pair => return (pair.1, ← pair.2.fold.runIn registry current)) =
        fields.mapM fun pair => return (pair.1, ← pair.2.runIn registry current) :=
      mapM_congr fun pair hpair => by rw [runIn_congr registry (ih pair hpair current)]
    rw [fold, evaluateIn_ofFields, foldFields_eq, evaluateIn, evaluateIn, evaluateFields_eq,
      evaluateFields_eq, List.mapM_map, ← hfields]
    rfl
  | call action receiver args ihr iha =>
    have hargs : (args.mapM fun t => t.fold.argumentIn registry current) =
        args.mapM fun t => t.argumentIn registry current :=
      mapM_congr fun t ht => argumentIn_congr registry (referencesRow_fold t) (iha t ht) current
    rw [fold, foldItems_eq, evaluateIn, evaluateIn, ihr, evaluateArguments_eq,
      evaluateArguments_eq, List.mapM_map, ← hargs]
    rfl

/-- A term and its folding mention the row both or neither, and evaluate to the same result or
error, leaving the same state. -/
theorem evaluate_fold (t : Term) :
    t.fold.referencesRow = t.referencesRow ∧ ∀ (current : Option Value) (s : State),
      (t.fold.evaluate current).runFrom s = (t.evaluate current).runFrom s := by
  refine ⟨referencesRow_fold t, fun current s => ?_⟩
  rw [evaluate, evaluate, evaluateIn_fold]

end TableQuery.Term
