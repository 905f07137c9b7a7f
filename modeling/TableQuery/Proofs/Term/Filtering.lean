import Mathlib
import TableQuery.Proofs.Sequence.Search
import TableQuery.Proofs.Term.Folding

namespace TableQuery

theorem Range.matchesFields_ofList (pairs : List (String × Value)) (row : Value) :
    matchesFields (Fields.ofList pairs) row = true ↔
      ∀ name v, pairs.reverse.lookup name = some v →
        ∃ found, row.field? name = some found ∧ found.equals v = true := by
  rw [matchesFields, List.all_eq_true]
  constructor
  · intro h name v hlookup
    have hmem : (name, v) ∈ Fields.ofList pairs :=
      Fields.mem_of_get? ((Fields.get?_ofList name pairs).trans hlookup)
    exact (Option.any_eq_true _ _).mp (h (name, v) hmem)
  · rintro h ⟨name, v⟩ hmem
    have hget := Fields.get?_of_mem (Fields.nodup_ofList pairs) hmem
    rw [Fields.get?_ofList] at hget
    exact (Option.any_eq_true _ _).mpr (h name v hget)

namespace Term

variable {s : State} {fields : List (String × Term)} {rows : List Value}

def valueFor (s : State) (row : Value) (t : Term) : Except Error Value :=
  ((t.run (some row)).runFrom s).1

-- Of several fields of one name the last one counts.
def MatchesFields (s : State) (fields : List (String × Term)) (row : Value) : Prop :=
  ∀ name t, fields.reverse.lookup name = some t →
    ∃ found v, row.field? name = some found ∧ t.valueFor s row = .ok v ∧ found.equals v = true

/-- What a filter with an object literal comes to. -/
inductive Filtered (s : State) (fields : List (String × Term)) (rows : List Value) :
    Except Error Value → Prop
  /-- A literal that mentions no row is evaluated before any row is looked at. -/
  | fails {field : String × Term} {e : Error} (constant : (object fields).referencesRow = false)
      (mem : field ∈ fields) (error_eq : ∀ row, field.2.valueFor s row = .error e) :
      Filtered s fields rows (.error e)
  | matching {test : Value → Bool} (constant : (object fields).referencesRow = false)
      (values : ∀ row, ∀ field ∈ fields, ∃ v, field.2.valueFor s row = .ok v)
      (test_iff : ∀ row, test row = true ↔ MatchesFields s fields row) :
      Filtered s fields rows (.ok (.array (rows.filter test)))
  | fails_for {row : Value} {field : String × Term} {e : Error}
      (mentions : (object fields).referencesRow = true) (row_mem : row ∈ rows)
      (mem : field ∈ fields) (error_eq : field.2.valueFor s row = .error e) :
      Filtered s fields rows (.error e)
  /-- An object counts as true, whatever its fields are. -/
  | all (mentions : (object fields).referencesRow = true)
      (values : ∀ row ∈ rows, ∀ field ∈ fields, ∃ v, field.2.valueFor s row = .ok v) :
      Filtered s fields rows (.ok (.array rows))

def FieldValue (s : State) (current : Option Value) (field : String × Term)
    (pair : String × Value) : Prop :=
  pair.1 = field.1 ∧ ((field.2.run current).runFrom s).1 = .ok pair.2

def fieldValues (s : State) (current : Option Value) (fields : List (String × Term)) :
    Except Error (List (String × Value)) :=
  fields.mapM fun field => ((field.2.run current).runFrom s).1.map (Prod.mk field.1)

section

variable (hfields : ∀ field ∈ fields, field.2.mutates = false) {current : Option Value}

include hfields

theorem runFrom_object (current : Option Value) (s : State) :
    ((object fields).run current).runFrom s =
      ((fieldValues s current fields).map fun pairs => .object (Fields.ofList pairs), s) := by
  let evalField (field : String × Term) : Eval (String × Value) :=
    do return (field.1, ← field.2.run current)
  have hfield (field : String × Term) : (evalField field).runFrom s =
      (((field.2.run current).runFrom s).1.map (Prod.mk field.1),
        ((field.2.run current).runFrom s).2) := by
    rw [Eval.runFrom, run_map]
    rfl
  have hstate : ∀ field ∈ fields, ((evalField field).runFrom s).2 = s := by
    intro field hmem
    rw [hfield]
    exact run_state (hfields field hmem) current s
  have hloop : (fields.mapM evalField).runFrom s =
      (fields.mapM fun field => ((evalField field).runFrom s).1, s) := run_mapM hstate
  simp only [hfield] at hloop
  change _ = (fieldValues s current fields, s) at hloop
  have hobject : ((object fields).evaluate current).runFrom s =
      (do return .ofValue (.object (Fields.ofList (← fields.mapM evalField))) :
        Eval Evaluated).runFrom s := by
    rw [evaluate, evaluateIn, evaluateFields_eq]
    rfl
  rw [runFrom_run, hobject, Eval.runFrom_bind, hloop]
  cases fieldValues s current fields <;> rfl

/-- A literal fails with one of its fields. -/
theorem exists_of_run_object_error {e : Error}
    (h : (((object fields).run current).runFrom s).1 = .error e) :
    ∃ field ∈ fields, ((field.2.run current).runFrom s).1 = .error e := by
  rw [runFrom_object hfields] at h
  obtain ⟨field, hmem, herror⟩ := exists_of_mapM_error (map_eq_error_iff.mp h)
  exact ⟨field, hmem, map_eq_error_iff.mp herror⟩

/-- Otherwise it is an object of their values. -/
theorem exists_of_run_object_ok {v : Value}
    (h : (((object fields).run current).runFrom s).1 = .ok v) :
    ∃ pairs, v = .object (Fields.ofList pairs) ∧
      List.Forall₂ (FieldValue s current) fields pairs := by
  rw [runFrom_object hfields] at h
  obtain ⟨pairs, hpairs, rfl⟩ := map_eq_ok_iff.mp h
  refine ⟨pairs, rfl, (mapM_eq_ok_iff.mp hpairs).imp fun field pair hpair => ?_⟩
  obtain ⟨v, hv, rfl⟩ := map_eq_ok_iff.mp hpair
  exact ⟨rfl, hv⟩

end

/-- Fields that have values have them one by one. -/
theorem exists_of_fieldValues {current : Option Value} {pairs : List (String × Value)}
    (h : List.Forall₂ (FieldValue s current) fields pairs) :
    ∀ field ∈ fields, ∃ v, ((field.2.run current).runFrom s).1 = .ok v := by
  intro field hmem
  obtain ⟨pair, -, hv⟩ := exists_of_forall₂ h hmem
  exact ⟨pair.2, hv⟩

/-- The fields of a literal, by name, and their values. -/
theorem lookup_values {current : Option Value} {pairs : List (String × Value)}
    (h : List.Forall₂ (FieldValue s current) fields pairs) (name : String) :
    Option.Rel (fun t v => ((t.run current).runFrom s).1 = .ok v)
      (fields.reverse.lookup name) (pairs.reverse.lookup name) := by
  have hlookup {fields : List (String × Term)} {pairs : List (String × Value)}
      (h : List.Forall₂ (FieldValue s current) fields pairs) :
      Option.Rel (fun t v => ((t.run current).runFrom s).1 = .ok v)
        (fields.lookup name) (pairs.lookup name) := by
    induction h with
    | nil => exact .none
    | @cons field pair fields pairs hfield _ ih =>
      obtain ⟨key, t⟩ := field
      obtain ⟨key', v⟩ := pair
      obtain ⟨rfl, hv⟩ := hfield
      rw [Assoc.lookup_cons, Assoc.lookup_cons]
      split
      · exact .some hv
      · exact ih
  exact hlookup (List.forall₂_reverse_iff.mpr h)

/-- For a literal that has values the test of its fields is the test of the object of the values. -/
theorem matchesFields_iff {row : Value} {pairs : List (String × Value)}
    (h : List.Forall₂ (FieldValue s (some row)) fields pairs) :
    Range.matchesFields (Fields.ofList pairs) row = true ↔ MatchesFields s fields row := by
  rw [Range.matchesFields_ofList]
  refine forall_congr' fun name => ?_
  -- under each name there are a term and its value, or neither
  have hrel := lookup_values h name
  generalize fields.reverse.lookup name = t?, pairs.reverse.lookup name = v? at hrel ⊢
  cases hrel with
  | none => exact iff_of_true nofun nofun
  | @some t v hv =>
    constructor
    · intro hmatches _ ht
      obtain rfl := Option.some.inj ht
      obtain ⟨found, hfound, hequal⟩ := hmatches v rfl
      exact ⟨found, v, hfound, hv, hequal⟩
    · intro hmatches _ hv'
      obtain rfl := Option.some.inj hv'
      obtain ⟨found, w, hfound, hw, hequal⟩ := hmatches t rfl
      obtain rfl := Except.ok.inj (hv.symm.trans hw)
      exact ⟨found, hfound, hequal⟩

section

variable {receiver : Term} {current : Option Value} {next : State} {e : Evaluated}
  (hreceiver : (receiver.evaluate current).runFrom s = (.ok e, next))
  (hrows : e.value = .array rows)

/-- The value of a term that mentions no row is an argument at once. -/
theorem runFrom_argumentIn {t : Term} (hrow : t.referencesRow = false) :
    (t.argumentIn .builtin current).runFrom s =
      (((t.run current).runFrom s).1.map .datum, ((t.run current).runFrom s).2) := by
  have harg : t.argumentIn .builtin current = do return .datum (← t.run current) :=
    if_neg (by simp [hrow])
  rw [harg, Eval.runFrom, run_map]
  rfl

include hreceiver hrows

/-- A filter evaluates its receiver and its predicate before it looks at the rows. -/
theorem run_filter {t : Term} {outcome : Except Error Argument}
    (harg : (t.argumentIn .builtin current).runFrom next = (outcome, next)) :
    ((call "filter" receiver [t]).run current).runFrom s = match outcome with
      | .ok arg =>
        let out := (Sequence.answer "filter" rows arg).runFrom ⟨e.type, e.binding, next⟩
        (out.1, out.2.state)
      | .error error => (.error error, next) := by
  have hd : Registry.builtin.describe "filter" = .ok ⟨.one, .sequence, .unary Range.filter⟩ := rfl
  have hargs : (evaluateArguments .builtin [t] current).runFrom next =
      (outcome.map fun arg => [arg], next) := by
    rw [evaluateArguments_eq, List.mapM_cons, Eval.runFrom_bind, harg]
    cases outcome <;> rfl
  rw [runFrom_run, runFrom_evaluate_call hreceiver hd, hargs]
  cases outcome with
  | error error => rfl
  | ok arg =>
    dsimp only [Except.map]
    rw [Registry.runFrom_apply, hrows, Sequence.answer]
    rcases (Registry.builtin.invoke "filter" (.array rows) [arg]).runFrom
      ⟨e.type, e.binding, next⟩ with ⟨_ | v, c⟩ <;> rfl

variable (hfields : ∀ field ∈ fields, field.2.mutates = false)

include hfields

/-- The fields have the same values for every row. -/
theorem filter_object_constant (hrow : (object fields).referencesRow = false) :
    ∃ outcome, ((call "filter" receiver [object fields]).run current).runFrom s =
      (outcome, next) ∧ Filtered next fields rows outcome := by
  have hsame : ∀ row, ∀ field ∈ fields, field.2.valueFor next row =
      ((field.2.run current).runFrom next).1 := by
    intro row field hmem
    have hfield := hrow
    rw [referencesRow, anyFieldReferencesRow_eq_false] at hfield
    rw [valueFor, run, run, runIn, runIn,
      evaluateIn_eq_of_not_row .builtin (hfield field hmem) (some row) current]
  have harg : ((object fields).argumentIn .builtin current).runFrom next = _ :=
    runFrom_argumentIn hrow
  have hstate : (((object fields).run current).runFrom next).2 = next := by
    rw [runFrom_object hfields]
  rw [hstate] at harg
  -- the literal is evaluated once, around the call
  cases hvalue : (((object fields).run current).runFrom next).1 with
  | error error =>
    rw [hvalue] at harg
    obtain ⟨field, hmem, herror⟩ := exists_of_run_object_error hfields hvalue
    exact ⟨_, run_filter hreceiver hrows harg, .fails hrow hmem fun row =>
      (hsame row field hmem).trans herror⟩
  | ok v =>
    rw [hvalue] at harg
    obtain ⟨pairs, rfl, hpairs⟩ := exists_of_run_object_ok hfields hvalue
    have hvalues (row : Value) : List.Forall₂ (FieldValue next (some row)) fields pairs :=
      forall₂_imp hpairs fun field hmem pair hpair =>
        ⟨hpair.1, (hsame row field hmem).trans hpair.2⟩
    exact ⟨_, run_filter hreceiver hrows harg, .matching hrow
      (fun row => exists_of_fieldValues (hvalues row)) fun row => matchesFields_iff (hvalues row)⟩

/-- The object of the values counts as true for every row. -/
theorem filter_object_mentions (hrow : (object fields).referencesRow = true) :
    ∃ outcome, ((call "filter" receiver [object fields]).run current).runFrom s =
      (outcome, next) ∧ Filtered next fields rows outcome := by
  let predicate (row : Option Value) : Eval Value := (object fields).run (row.or current)
  have harg : ((object fields).argumentIn .builtin current).runFrom next =
      (.ok (.deferred predicate), next) := by
    rw [argumentIn, if_pos hrow]
    rfl
  have hleaves : (Argument.deferred predicate).Leaves next :=
    fun row _ => run_leaves (by simpa [mutates, anyFieldMutates_eq_false] using hfields) _
  have hcall := run_filter hreceiver hrows harg
  dsimp only at hcall
  rw [(Sequence.runFrom_searches predicate rows _).2, Sequence.runFrom_flags hleaves] at hcall
  refine ⟨_, hcall, ?_⟩
  dsimp only
  cases hflags : rows.mapM fun row =>
      ((Argument.deferred predicate).valueFor next row).map Value.isTruthy with
  | error error =>
    obtain ⟨row, hmem, herror⟩ := exists_of_mapM_error hflags
    obtain ⟨field, hfield, hvalue⟩ :=
      exists_of_run_object_error hfields (map_eq_error_iff.mp herror)
    exact .fails_for hrow hmem hfield hvalue
  | ok flags =>
    have hflag : List.Forall₂ (fun row flag => flag = true ∧
        ∀ field ∈ fields, ∃ v, field.2.valueFor next row = .ok v) rows flags := by
      refine (mapM_eq_ok_iff.mp hflags).imp fun row flag h => ?_
      obtain ⟨v, hv, rfl⟩ := map_eq_ok_iff.mp h
      obtain ⟨pairs, rfl, hpairs⟩ := exists_of_run_object_ok hfields hv
      exact ⟨rfl, exists_of_fieldValues hpairs⟩
    -- every flag is set, so every row is kept
    have hall := Range.flagged_eq_self (hflag.imp fun row flag h => h.1)
    change Filtered next fields rows (.ok (.array (Range.flagged rows flags)))
    rw [hall]
    refine .all hrow fun row hmem => ?_
    obtain ⟨flag, -, hvalues⟩ := exists_of_forall₂ hflag hmem
    exact hvalues

end

/-- A filter with an object literal, folded to a datum or not: if the literal mentions no row it
keeps, in order, the rows that have its fields, and if it mentions the row it keeps them all. -/
theorem filter_object {receiver literal : Term} {current : Option Value} {next : State}
    {e : Evaluated} (hreceiver : (receiver.evaluate current).runFrom s = (.ok e, next))
    (hrows : e.value = .array rows) (hfields : ∀ field ∈ fields, field.2.mutates = false)
    (hliteral : literal = object fields ∨ literal = ofFields fields) :
    ∃ outcome, ((call "filter" receiver [literal]).run current).runFrom s = (outcome, next) ∧
      Filtered next fields rows outcome := by
  have hobject : (call "filter" receiver [literal]).run current =
      (call "filter" receiver [object fields]).run current := by
    rcases hliteral with rfl | rfl
    · rfl
    -- folding changes neither the value of the literal nor whether it mentions the row
    · have harg : (ofFields fields).argumentIn .builtin current =
          (object fields).argumentIn .builtin current :=
        argumentIn_congr .builtin (referencesRow_ofFields fields)
          (evaluateIn_ofFields .builtin fields) current
      refine runIn_congr .builtin ?_
      rw [evaluateIn, evaluateIn, evaluateArguments_eq, evaluateArguments_eq, List.mapM_cons,
        List.mapM_cons, harg]
  rw [hobject]
  cases hrow : (object fields).referencesRow with
  | false => exact filter_object_constant hreceiver hrows hfields hrow
  | true => exact filter_object_mentions hreceiver hrows hfields hrow

/-- The last of two fields of one name counts, and a mention of the row keeps both rows. -/
theorem filter_object_kinds :
    let first : Value := .object [("a", .bool true), ("b", .bool true)]
    let second : Value := .object [("a", .bool true), ("b", .bool false)]
    let rows : List Value := [first, second]
    let constant : List (String × Term) := [("b", .datum (.bool true)), ("b", .datum (.bool false))]
    let mentions : List (String × Term) := [("a", .call "bracket" .row [.datum (.string "b")])]
    let s : State := ⟨.empty, ⟨fun _ _ => ""⟩, 0⟩
    let out (fields : List (String × Term)) : Except Error Value × State :=
      ((call "filter" (.datum (.array rows)) [ofFields fields]).run none).runFrom s
    (out constant = (.ok (.array [second]), s) ∧
        Filtered s constant rows (.ok (.array [second]))) ∧
      out mentions = (.ok (.array rows), s) ∧ Filtered s mentions rows (.ok (.array rows)) := by
  intro first second rows constant mentions s out
  have hreceiver : ((Term.datum (.array rows)).evaluate none).runFrom s =
      (.ok (.ofValue (.array rows)), s) := rfl
  obtain ⟨kept, hrun, hkept⟩ :=
    filter_object hreceiver rfl (by decide : ∀ field ∈ constant, field.2.mutates = false) (.inr rfl)
  obtain ⟨all, hrun', hall⟩ :=
    filter_object hreceiver rfl (by decide : ∀ field ∈ mentions, field.2.mutates = false) (.inr rfl)
  have hconstant : out constant = (.ok (.array [second]), s) := by cbv
  have hmentions : out mentions = (.ok (.array rows), s) := by cbv
  obtain rfl : kept = .ok (.array [second]) := congrArg Prod.fst (hrun.symm.trans hconstant)
  obtain rfl : all = .ok (.array rows) := congrArg Prod.fst (hrun'.symm.trans hmentions)
  exact ⟨⟨hconstant, hkept⟩, hmentions, hall⟩

/-- The first row only has the field with the value of its term, and both are kept. -/
theorem filter_ne_matching :
    let first : Value := .object [("a", .bool true), ("b", .bool true)]
    let second : Value := .object [("a", .bool true), ("b", .bool false)]
    let fields : List (String × Term) := [("a", .call "bracket" .row [.datum (.string "b")])]
    let s : State := ⟨.empty, ⟨fun _ _ => ""⟩, 0⟩
    let t : Term := .call "filter" (.datum (.array [first, second])) [ofFields fields]
    let out := (t.run none).runFrom s
    (∀ field ∈ fields, field.2.mutates = false) ∧ out = (.ok (.array [first, second]), s) ∧
      ∀ test : Value → Bool, (∀ row, test row = true ↔ MatchesFields s fields row) →
        [first, second].filter test = [first] := by
  intro first second fields s t out
  refine ⟨by decide, by cbv, fun test htest => ?_⟩
  have hfirst : test first = true := by
    refine (htest first).mpr fun name t ht => ?_
    have hlookup : (if name = "a" then some _ else none) = some t :=
      (Assoc.lookup_cons ..).symm.trans ht
    split at hlookup
    · next hname =>
      subst hname
      cases hlookup
      exact ⟨.bool true, .bool true, rfl, by cbv, by decide⟩
    · cases hlookup
  have hsecond : test second = false := by
    refine Bool.eq_false_iff.mpr fun h => ?_
    obtain ⟨found, v, hfound, hv, hequal⟩ := (htest second).mp h "a" _ rfl
    have hv' : valueFor s second (.call "bracket" .row [.datum (.string "b")]) =
        .ok (.bool false) := by cbv
    cases hfound
    cases hv'.symm.trans hv
    revert hequal
    decide
  rw [List.filter_cons_of_pos hfirst, List.filter_cons_of_neg (by simp [hsecond]), List.filter_nil]

end Term

end TableQuery
