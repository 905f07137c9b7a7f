import Mathlib
import TableQuery.Proofs.Selection.Update

namespace TableQuery

open Act

namespace Term

variable {s : State} {e : Evaluated} {selection p : Term} {t : String} {live : List Value}

/-- An argument that does not mention the row is evaluated first, and once. -/
theorem argumentIn_of_value {v : Value} (hp : p.mutates = false) (hrow : p.referencesRow = false)
    (h : ((p.run none).runFrom s).1 = .ok v) :
    (p.argumentIn .builtin none).runFrom s = (.ok (.datum v), s) := by
  have hrun : (p.runIn .builtin none).runFrom s = (.ok v, s) := Prod.ext h (run_state hp none s)
  rw [argumentIn, if_neg (by simp [hrow]), Eval.runFrom_bind, hrun]
  rfl

/-- The argument of a call gives for a row what its term gives for it, unless the term does not
mention the row: then the argument is evaluated first, and once. -/
theorem exists_argument (hp : p.mutates = false)
    (heager : p.referencesRow = false → ∃ v, ((p.run none).runFrom s).1 = .ok v) :
    ∃ arg, (p.argumentIn .builtin none).runFrom s = (.ok arg, s) ∧
      ∀ row, (arg.evalRow row).runFrom s = (p.run (some row)).runFrom s := by
  by_cases hrow : p.referencesRow = true
  · unfold argumentIn
    rw [if_pos hrow]
    exact ⟨_, rfl, fun row => rfl⟩
  -- evaluated without a row it has the value that it has for every row
  · have hmention : p.referencesRow = false := by simpa using hrow
    obtain ⟨v, hv⟩ := heager hmention
    refine ⟨.datum v, argumentIn_of_value hp hmention hv, fun row => ?_⟩
    have hrun : (p.run (some row)).runFrom s = (.ok v, s) := by
      rw [run, runIn, evaluateIn_eq_of_not_row .builtin hmention (some row) none]
      exact Prod.ext hv (run_state hp none s)
    rw [hrun]
    rfl

/-- What a term that does not write gives has no field twice. -/
theorem distinct_of_run {current : Option Value} {v : Value}
    (htables : ∀ name rows, s.store.rows? name = some rows → ∀ row ∈ rows, row.Distinct)
    (hp : p.mutates = false) (hdatums : ∀ v ∈ p.datums, v.Distinct)
    (hcurrent : ∀ row ∈ current, row.Distinct) (h : ((p.run current).runFrom s).1 = .ok v) :
    v.Distinct := by
  have hkeeps : Keeps (fun state => state = s) Value.Distinct (p.runIn .builtin current) := by
    apply runIn_keeps Value.hereditary_distinct _ p hdatums
    · exact actions_keep Value.hereditary_distinct hp
    · exact hcurrent
    · rintro _ rfl
      exact htables
  exact (hkeeps s rfl).2 v h

/-- What a query gives for a row is the patch of the row, and has no field twice. -/
theorem patches_of_run {patch : Value → Fields} {arg : Argument} {row : Value}
    (htables : ∀ name rows, s.store.rows? name = some rows → ∀ row ∈ rows, row.Distinct)
    (hp : p.mutates = false) (hdatums : ∀ v ∈ p.datums, v.Distinct) (hrow : row.Distinct)
    (hrun : ((p.run (some row)).runFrom s).1 = .ok (.object (patch row)))
    (harg : (arg.evalRow row).runFrom s = (p.run (some row)).runFrom s) :
    Mutation.Patches arg s patch row := by
  constructor
  · exact distinct_of_run htables hp hdatums (fun v hv => Option.mem_some_iff.mp hv ▸ hrow) hrun
  · rw [harg]
    exact Prod.ext hrun (run_state hp (some row) s)

/-- A query that deletes a selection. -/
theorem exists_runFrom_delete
    (hrun : (selection.evaluate none).runFrom s = (.ok e, s)) (hselects : Selects s e t live)
    (hlive : KeyedBy (fun _ => True) live) : ∃ (report : Report) (next : State),
      ((call "delete" selection []).run none).runFrom s = (.ok report.toValue, next) ∧
      report.deleted = some (keysOf (selectedRows e.value)).length ∧
      ∀ name, next.store.rows? name = if name = t then
        some (Mutation.unselected (keysOf (selectedRows e.value)) live)
      else s.store.rows? name := by
  have hprepared : Prepared s selection [] e [] := by
    refine ⟨hrun, ?_⟩
    rw [List.mapM_nil]
    rfl
  have hcall := hprepared.runFrom_call (rfl : Registry.builtin.describe "delete" = _)
  have hinvoke : Registry.builtin.invoke "delete" e.value [] = Mutation.delete e.value := rfl
  obtain ⟨report, next, hdelete, hdeleted, hnext⟩ := Mutation.runFrom_delete hselects hlive
  rw [hinvoke, hdelete] at hcall
  exact ⟨report, next.state, hcall, hdeleted, hnext.rows?_eq⟩

/-- A receiver and the only argument, evaluated one after the other. -/
theorem prepared_one {arg : Argument} (hreceiver : (selection.evaluate none).runFrom s = (.ok e, s))
    (hargument : (p.argumentIn .builtin none).runFrom s = (.ok arg, s)) :
    Prepared s selection [p] e [arg] := by
  refine ⟨hreceiver, ?_⟩
  rw [List.mapM_cons, Eval.runFrom_bind, hargument]
  rfl

/-- A query that updates a selection with an argument that gives a patch for each of its rows. -/
theorem exists_runFrom_update {arg : Argument} {patch : Value → Fields}
    (hrun : (selection.evaluate none).runFrom s = (.ok e, s)) (hselects : Selects s e t live)
    (hlive : KeyedBy (fun _ => True) live)
    (hargument : (p.argumentIn .builtin none).runFrom s = (.ok arg, s))
    (hpatches : ∀ row ∈ selectedRows e.value, Mutation.Patches arg s patch row) :
    ∃ (outcome : Except Error Value) (next : State),
      ((call "update" selection [p]).run none).runFrom s = (outcome, next) ∧
      Mutation.Reported e patch outcome ∧
      ∀ name, next.store.rows? name = if name = t then
        some (live.map (patchWhere (selectedRows e.value) patch))
      else s.store.rows? name := by
  have hcall := (prepared_one hrun hargument).runFrom_call
    (rfl : Registry.builtin.describe "update" = _)
  have hinvoke : Registry.builtin.invoke "update" e.value [arg] =
      Mutation.update e.value arg .undefined := rfl
  obtain ⟨next, outcome, hupdate, hreported, hnext⟩ :=
    Mutation.runFrom_update admission_true hselects hlive hpatches
  rw [hinvoke, hupdate] at hcall
  exact ⟨outcome, next.state, hcall, hreported, hnext.rows?_eq⟩

/-- A term that does not mention the row has a value without one as soon as it has one for a
row. -/
theorem exists_eager {patch : Value → Fields} {rows : List Value}
    (hpatch : ∀ row ∈ rows, ((p.run (some row)).runFrom s).1 = .ok (.object (patch row)))
    (hnone : rows = [] → p.referencesRow = false → ∃ v, ((p.run none).runFrom s).1 = .ok v)
    (hmention : p.referencesRow = false) : ∃ v, ((p.run none).runFrom s).1 = .ok v := by
  rcases rows with _ | ⟨row, rest⟩
  · exact hnone rfl hmention
  · have hfirst := hpatch row List.mem_cons_self
    rw [run, runIn, evaluateIn_eq_of_not_row .builtin hmention (some row) none] at hfirst
    exact ⟨_, hfirst⟩

/-- A deletion takes out the selected rows and no others, and tells how many they are. An update
merges into every selected row its own patch, unless that has another key, leaves all other rows
and all positions, and tells how the rows fared; where no row is selected, a patch that does not
mention the row must still have a value. -/
theorem delete_update_exact
    (hkeyed : ∀ name rows, s.store.rows? name = some rows → KeyedBy (fun _ => True) rows)
    (hreads : selection.mutates = false) (heval : ((selection.evaluate none).runFrom s).1 = .ok e)
    (htype : e.type.isSelection = true) :
    ∃ t live, Selects s e t live ∧
      (keysOf (selectedRows e.value)).Pairwise (fun x y => x.strictEquals y = false) ∧
      (∃ (report : Report) (next : State),
        ((call "delete" selection []).run none).runFrom s = (.ok report.toValue, next) ∧
        report.deleted = some (keysOf (selectedRows e.value)).length ∧
        ∀ name, next.store.rows? name = if name = t then
          some (Mutation.unselected (keysOf (selectedRows e.value)) live)
        else s.store.rows? name) ∧
      ∀ (p : Term) (patch : Value → Fields), p.mutates = false →
        (∀ v ∈ p.datums, v.Distinct) →
        (∀ row ∈ selectedRows e.value,
          ((p.run (some row)).runFrom s).1 = .ok (.object (patch row))) →
        (selectedRows e.value = [] → p.referencesRow = false →
          ∃ v, ((p.run none).runFrom s).1 = .ok v) →
        ∃ (outcome : Except Error Value) (next : State),
          ((call "update" selection [p]).run none).runFrom s = (outcome, next) ∧
          Mutation.Reported e patch outcome ∧
          ∀ name, next.store.rows? name = if name = t then
            some (live.map (patchWhere (selectedRows e.value) patch))
          else s.store.rows? name := by
  have hrun : (selection.evaluate none).runFrom s = (.ok e, s) :=
    Prod.ext heval (evaluate_state hreads none s)
  obtain ⟨t, live, hselects⟩ := exists_selects hreads hrun htype
  have hlive := hkeyed t live hselects.rows_eq
  have hsub := hselects.selectedRows_subperm hlive
  have htables (name : String) (rows : List Value) (hrows : s.store.rows? name = some rows)
      (row : Value) (hrow : row ∈ rows) : row.Distinct :=
    ((hkeyed name rows hrows).isRow row hrow).distinct
  refine ⟨t, live, hselects, pairwise_keysOf hlive hsub, ?_, ?_⟩
  · exact exists_runFrom_delete hrun hselects hlive
  · intro p patch hp hdatums hpatch hnone
    obtain ⟨arg, hargument, harg⟩ := exists_argument hp (exists_eager hpatch hnone)
    apply exists_runFrom_update hrun hselects hlive hargument
    intro row hrow
    have hdistinct := htables t live hselects.rows_eq row (hsub.subset hrow)
    exact patches_of_run htables hp hdatums hdistinct (hpatch row hrow) (harg row)

/-- One row of two is deleted, or gets a field from a patch that mentions the row. -/
theorem delete_update_exact_get :
    let first : Value := .object [("id", .bool true), ("v", .string "x")]
    let second : Value := .object [("id", .bool false), ("v", .string "y")]
    let s : State := ⟨⟨[("t", [first, second])]⟩, ⟨fun _ _ => ""⟩, 0⟩
    let selection : Term := .call "get" (.table "t") [.datum (.bool true)]
    let p : Term := .object [("w", .call "bracket" .row [.datum (.string "v")])]
    let merged : Value := .object [("id", .bool true), ("v", .string "x"), ("w", .string "x")]
    ((selection.evaluate none).runFrom s).1 =
        .ok ⟨first, .selection, ⟨some "t", some 0, some (.bool true)⟩⟩ ∧
      (∃ (report : Report) (next : State),
        ((call "delete" selection []).run none).runFrom s = (.ok report.toValue, next) ∧
        report.deleted = some 1 ∧ next.store.rows? "t" = some [second]) ∧
      ∃ next : State, ((call "update" selection [p]).run none).runFrom s =
          (.ok (Report.ofUpdated 1 0).toValue, next) ∧
        next.store.rows? "t" = some [merged, second] := by
  intro first second s selection p merged
  have heval : ((selection.evaluate none).runFrom s).1 =
      .ok ⟨first, .selection, ⟨some "t", some 0, some (.bool true)⟩⟩ := by cbv
  have hkeyed (name : String) (rows : List Value) (hrows : s.store.rows? name = some rows) :
      KeyedBy (fun _ => True) rows := by
    have hname : (if name = "t" then some [first, second] else none) = some rows :=
      (Assoc.lookup_cons ..).symm.trans hrows
    split at hname
    · cases hname
      refine ⟨?_, by decide⟩
      simp only [List.forall_mem_cons]
      exact ⟨⟨by decide, _, rfl, trivial⟩, ⟨by decide, _, rfl, trivial⟩, by simp⟩
    · cases hname
  obtain ⟨t, live, hselects, -, hdelete, hupdate⟩ :=
    delete_update_exact hkeyed (rfl : selection.mutates = false) heval rfl
  obtain rfl : "t" = t := Option.some.inj hselects.table_eq
  have hlive : s.store.rows? "t" = some live := hselects.rows_eq
  obtain rfl : [first, second] = live := Option.some.inj hlive
  refine ⟨heval, ?_, ?_⟩
  · obtain ⟨report, next, hrun, hdeleted, hrows⟩ := hdelete
    exact ⟨report, next, hrun, hdeleted, hrows "t"⟩
  · have hpatch : ∀ row ∈ selectedRows first,
        ((p.run (some row)).runFrom s).1 = .ok (.object [("w", .string "x")]) := by
      intro row hrow
      obtain rfl := List.mem_singleton.mp hrow
      cbv
    obtain ⟨outcome, next, hrun, hreported, hrows⟩ := hupdate p (fun _ => [("w", .string "x")])
      rfl (by decide) hpatch (fun hnil => absurd hnil (by simp [selectedRows, first]))
    have hone : outcome = .ok (Report.ofUpdated 1 0).toValue := hreported.one rfl
    subst hone
    exact ⟨next, hrun, hrows "t"⟩

/-- Where no row is selected, a patch that does not mention the row is evaluated all the same and
its failure is that of the update. -/
theorem update_none_fails :
    let s : State := ⟨⟨[("t", [])]⟩, ⟨fun _ _ => ""⟩, 0⟩
    let p : Term := .call "add" (.datum (.ofNat 1)) [.datum (.string "x")]
    let outcome := (((call "update" (.table "t") [p]).run none).runFrom s).1
    (((table "t").evaluate none).runFrom s).1 = .ok (.ofTable "t" []) ∧
      (table "t").mutates = false ∧ p.mutates = false ∧ (∀ v ∈ p.datums, v.Distinct) ∧
      (∀ row ∈ selectedRows (Evaluated.ofTable "t" []).value,
        ((p.run (some row)).runFrom s).1 = .ok (.object [])) ∧
      outcome = .error (.kindMismatch .number .string) ∧
      ∀ patch, ¬ Mutation.Reported (.ofTable "t" []) patch outcome := by
  intro s p outcome
  have heval : (((table "t").evaluate none).runFrom s).1 = .ok (.ofTable "t" []) := by cbv
  have herror : outcome = .error (.kindMismatch .number .string) := by cbv
  refine ⟨heval, rfl, rfl, by decide, by simp [selectedRows, Evaluated.ofTable], herror, ?_⟩
  intro patch hreported
  obtain ⟨tally, htally, -⟩ := hreported.many rfl
  rw [herror] at htally
  cases htally

end Term

end TableQuery
