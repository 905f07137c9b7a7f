import Mathlib
import TableQuery.Proofs.Action.Accounting
import TableQuery.Proofs.PrimaryKey.Lookup
import TableQuery.Proofs.Selection.Update

namespace TableQuery

open Act

def Argument.GivesObject (s : State) (row : Value) (arg : Argument) : Prop :=
  ∃ patch next, (arg.evalRow row).runFrom s = (.ok (.object patch), next) ∧ next.store = s.store

def SameCounts (names : List String) (one many : Except Error Value) : Prop :=
  ∃ v w, one = .ok v ∧ many = .ok w ∧ ∀ name ∈ names, v.counter name = w.counter name

namespace State

def write (t : String) (rows : List Value) (s : State) : State :=
  { s with store := s.store.load t rows }

def patchAt (t : String) (live : List Value) (i : Nat) (row : Value) (patch : Fields) (s : State) :
    State :=
  if conflicts patch row then s else s.write t (live.set i (patched patch row))

end State

structure Context.Holds (t : String) (live : List Value) (i : Nat) (row : Value) (c : Context) :
    Prop where
  table_eq : c.binding.table = some t
  rows?_eq : c.state.store.rows? t = some live
  keyed : KeyedBy (fun _ => True) live
  row_eq : live[i]? = some row

namespace Context.Holds

variable {c : Context} {t : String} {live : List Value} {row : Value} {i : Nat}

theorem rows_eq (h : c.Holds t live i row) : c.rows = .ok live :=
  Context.rows_eq_ok.mpr ⟨t, h.table_eq, h.rows?_eq⟩

/-- The row is found by its key, whichever row is bound. -/
theorem locate_eq (h : c.Holds t live i row) : c.locate row = .ok (some i) :=
  (Rewritten.refl h.table_eq h.rows?_eq).locate_eq h.keyed (.refl h.keyed) h.row_eq h.row_eq

theorem runFrom_setRows (h : c.Holds t live i row) (rows : List Value) :
    (setRows rows).runFrom c = (.ok (), { c with state := c.state.write t rows }) := by
  rw [Act.runFrom_setRows, h.table_eq]
  rfl

/-- The tables are still the same. -/
theorem withState (h : c.Holds t live i row) {s : State} (hstore : s.store = c.state.store) :
    ({ c with state := s } : Context).Holds t live i row := by
  refine ⟨h.table_eq, ?_, h.keyed, h.row_eq⟩
  dsimp only
  rw [hstore]
  exact h.rows?_eq

theorem isRow (h : c.Holds t live i row) : IsRow (fun _ => True) row :=
  h.keyed.getElem?_isRow h.row_eq

theorem exists_fields (h : c.Holds t live i row) : ∃ fields, row = .object fields := by
  obtain ⟨fields, _, hrow, -, -⟩ := h.isRow.exists_fields
  exact ⟨fields, hrow⟩

end Context.Holds

namespace Mutation

variable {c : Context} {t : String} {live : List Value} {row : Value} {i : Nat} {patch : Fields}
  {arg : Argument} {s : State}

/-- An argument that gives an object is not `null`. -/
theorem not_isNull_of_evalRow {s₀ : State}
    (heval : (arg.evalRow row).runFrom s₀ = (.ok (.object patch), s)) : ¬ arg.isNull = true := by
  intro hnull
  rcases arg with _ | v | run
  · cases hnull
  · cases v <;> cases hnull
    cases heval
  · cases hnull

/-- A patch that is refused writes nothing. -/
theorem applyPatch_eq (h : c.Holds t live i row) (patch : Fields) : (applyPatch i patch).runFrom c =
    (.ok (if conflicts patch row then none else some (changes patch row)),
      { c with state := c.state.patchAt t live i row patch }) := by
  obtain ⟨fields, rfl⟩ := h.exists_fields
  rw [applyPatch, runFrom_bind, runFrom_ask, h.rows_eq]
  dsimp only
  rw [h.row_eq]
  dsimp only
  rw [update?_eq]
  unfold State.patchAt
  by_cases hconflict : conflicts patch (.object fields) = true
  · rw [if_pos hconflict, if_pos hconflict, if_pos hconflict]
    rfl
  · have hmerged : patched patch (.object fields) = .object (Fields.merge fields patch) := by
      rw [patched, if_neg hconflict, Value.merge, Fields.mergeValue]
    rw [if_neg hconflict, if_neg hconflict, if_neg hconflict, hmerged]
    dsimp only
    rw [runFrom_bind, h.runFrom_setRows]
    rfl

/-- One row: the update fails if its patch is refused. -/
theorem updateRow_eq (h : c.Holds t live i row) (htype : c.type = .selection)
    (heval : (arg.evalRow row).runFrom c.state = (.ok (.object patch), s))
    (hstore : s.store = c.state.store) : (updateRow row arg).runFrom c =
      (if conflicts patch row then .error .keyChanged
        else if changes patch row then .ok (.ofUpdated 1 0) else .ok (.ofUpdated 0 1),
        { c with state := s.patchAt t live i row patch }) := by
  have hnull : row.isNull = false := by
    obtain ⟨fields, rfl⟩ := h.exists_fields
    rfl
  have hmid := h.withState hstore
  rw [updateRow_eq_writePatch htype hnull, evalRow, runFrom_ofEval, heval]
  exact runFrom_writePatch_of_applyPatch hmid.locate_eq (applyPatch_eq hmid patch)

theorem patchRow_eq (tally : Tally) (h : c.Holds t live i row) (patch : Fields) :
    (patchRow tally row patch).runFrom c =
      (.ok (tally.count patch row), { c with state := c.state.patchAt t live i row patch }) :=
  runFrom_patchRow_of_applyPatch tally h.locate_eq (applyPatch_eq h patch)

/-- A row set of one row: the same row is patched, but a patch that is refused is counted. -/
theorem updateRows_eq (h : c.Holds t live i row) (htype : c.type = .selectionArray)
    (heval : (arg.evalRow row).runFrom c.state = (.ok (.object patch), s))
    (hstore : s.store = c.state.store) : (updateRows [row] arg).runFrom c =
      (.ok (Tally.count patch row ⟨0, 0, 0⟩).report,
        { c with state := s.patchAt t live i row patch }) := by
  have hexpect : c.expectSelection = .ok () := if_pos (by rw [htype]; rfl)
  have hmid := h.withState hstore
  have hpatches : ([row].mapM fun row => do ofExcept (asPatch (← evalRow row arg))).runFrom c =
      (.ok [patch], { c with state := s }) := by
    rw [List.mapM_cons, List.mapM_nil, runFrom_bind, runFrom_bind, evalRow, runFrom_ofEval, heval]
    rfl
  rw [updateRows, runFrom_bind, runFrom_ask, hexpect]
  dsimp only
  rw [if_neg (not_isNull_of_evalRow heval), runFrom_bind, hpatches]
  dsimp only
  rw [List.zip_cons_cons, List.zip_nil_left, List.foldlM_cons, runFrom_bind, runFrom_bind]
  dsimp only
  rw [patchRow_eq _ hmid]
  rfl

/-- One row is taken out at its position. -/
theorem deleteRow_eq (h : c.Holds t live i row) (htype : c.type = .selection) :
    (deleteRow row).runFrom c = (.ok (.ofDeleted 1 0), { c with
      binding := { c.binding with rowIndex := none }
      state := c.state.write t (live.eraseIdx i) }) := by
  obtain ⟨fields, rfl⟩ := h.exists_fields
  have hnull : ¬ (Value.object fields).isNull = true := by simp [Value.isNull]
  rw [deleteRow, if_neg hnull, runFrom_bind, runFrom_ask, Context.expectType_eq htype]
  dsimp only
  rw [runFrom_bind, runFrom_ask, h.locate_eq]
  dsimp only
  rw [runFrom_bind, runFrom_ask, h.rows_eq]
  dsimp only
  rw [runFrom_bind, h.runFrom_setRows]
  rfl

/-- A row set of one row: the rows that are not the same as that row are kept. -/
theorem deleteRows_eq (h : c.Holds t live i row) (htype : c.type = .selectionArray) :
    (deleteRows [row]).runFrom c =
      (.ok (.ofDeletedRows 1), { c with state := c.state.write t (live.eraseIdx i) }) := by
  have hother : ¬ c.type = .table := by simp [htype]
  have hsub : [row].Subperm live := by
    rw [List.singleton_subperm_iff]
    exact List.mem_of_getElem? h.row_eq
  have hkept : remaining [row] live = live.eraseIdx i := by
    rw [remaining_eq h.keyed hsub, unselected_single h.keyed h.row_eq]
  have hlt : i < live.length := (List.getElem?_eq_some_iff.mp h.row_eq).1
  have hone : live.length - (live.eraseIdx i).length = 1 := by
    rw [List.length_eraseIdx_of_lt hlt]
    omega
  rw [deleteRows, runFrom_bind, runFrom_get]
  dsimp only
  rw [if_neg hother, runFrom_bind, runFrom_ask, Context.expectType_eq htype]
  dsimp only
  rw [List.isEmpty_cons, if_neg Bool.false_ne_true, runFrom_bind, runFrom_ask, h.rows_eq]
  dsimp only
  rw [hkept, hone, runFrom_bind, h.runFrom_setRows]
  rfl

def overwrite (done : Tally) (row new : Value) : Act Tally := do
  let key ← ofExcept (replacementKey new)
  if !row.id?.any fun old => old.strictEquals key then
    return { done with errors := done.errors + 1 }
  if row.equals new then return { done with unchanged := done.unchanged + 1 }
  match ← ask (Context.locate row) with
  | none => return done
  | some index =>
    setRows ((← ask Context.rows).set index new)
    return { done with replaced := done.replaced + 1 }

theorem replaceRow_eq_overwrite (arg : Argument) (done : Tally) (row : Value) :
    replaceRow arg done row = (do overwrite done row (← evalRow row arg)) := rfl

/-- Of its context a replacement sees the state and the table, not how the row was selected. -/
theorem exists_overwrite (t : String) (live : List Value) (i : Nat) (done : Tally)
    (row new : Value) (s : State) : ∃ (outcome : Except Error Tally) (last : State),
      ∀ c : Context, c.Holds t live i row → c.state = s →
        (overwrite done row new).runFrom c = (outcome, { c with state := last }) := by
  -- the checks of the new value look at no context, so they come before the context is chosen
  rcases hkey : replacementKey new with e | key
  · refine ⟨.error e, s, fun c _ hs => ?_⟩
    rw [overwrite, runFrom_bind, runFrom_ofExcept, hkey, ← hs]
  by_cases hother : (!row.id?.any fun old => old.strictEquals key) = true
  · refine ⟨.ok { done with errors := done.errors + 1 }, s, fun c _ hs => ?_⟩
    rw [overwrite, runFrom_bind, runFrom_ofExcept, hkey, ← hs]
    dsimp only
    rw [if_pos hother, runFrom_pure]
  by_cases hsame : row.equals new = true
  · refine ⟨.ok { done with unchanged := done.unchanged + 1 }, s, fun c _ hs => ?_⟩
    rw [overwrite, runFrom_bind, runFrom_ofExcept, hkey, ← hs]
    dsimp only
    rw [if_neg hother, if_pos hsame, runFrom_pure]
  · refine ⟨.ok { done with replaced := done.replaced + 1 }, s.write t (live.set i new),
      fun c h hs => ?_⟩
    rw [overwrite, runFrom_bind, runFrom_ofExcept, hkey, ← hs]
    dsimp only
    rw [if_neg hother, if_neg hsame, runFrom_bind, runFrom_ask, h.locate_eq]
    dsimp only
    rw [runFrom_bind, runFrom_ask, h.rows_eq]
    dsimp only
    rw [runFrom_bind, h.runFrom_setRows]
    rfl

theorem exists_replaceRows (t : String) (live : List Value) (i : Nat) {s₀ : State}
    (heval : (arg.evalRow row).runFrom s₀ = (.ok (.object patch), s))
    (hstore : s.store = s₀.store) :
    ∃ (outcome : Except Error Report) (last : State),
      ∀ c : Context, c.Holds t live i row → c.state = s₀ →
        (replaceRows [row] arg).runFrom c = (outcome, { c with state := last }) := by
  obtain ⟨outcome, last, hrun⟩ := exists_overwrite t live i ⟨0, 0, 0⟩ row (.object patch) s
  refine ⟨outcome.map Tally.report, last, fun c h hs => ?_⟩
  subst hs
  have hmid := h.withState hstore
  rw [replaceRows, List.foldlM_cons, replaceRow_eq_overwrite, runFrom_bind, runFrom_bind,
    runFrom_bind, evalRow, runFrom_ofEval, heval]
  dsimp only
  rw [hrun _ hmid rfl]
  cases outcome <;> rfl

/-- A replacement by a value goes through the rows that are selected, one or many. -/
theorem replace_eq (htype : c.type.isSelection = true) (hvalue : ¬ arg.isNull = true)
    {receiver : Value} (hreceiver : receiver ≠ .null) :
    (replace receiver arg .undefined).runFrom c =
      (do return (← replaceRows (selectedRows receiver) arg).toValue : Act Value).runFrom c := by
  have hexpect : c.expectSelection = .ok () := if_pos htype
  rw [replace, runFrom_bind, runFrom_ask, hexpect]
  dsimp only
  rw [if_neg hvalue]
  cases receiver with
  | null => exact absurd rfl hreceiver
  | _ => rfl

theorem runFrom_toValue (x : Act Report) (c : Context) :
    (do return (← x).toValue : Act Value).runFrom c =
      ((x.runFrom c).1.map Report.toValue, (x.runFrom c).2) := by
  rw [runFrom_bind]
  rcases x.runFrom c with ⟨_ | report, next⟩ <;> rfl

/-- An update of no rows looks at no row and writes nothing. -/
theorem updateRows_nil (htype : c.type = .selectionArray) (arg : Argument) :
    (updateRows [] arg).runFrom c = (.ok (Tally.report ⟨0, 0, 0⟩), c) := by
  have hexpect : c.expectSelection = .ok () := if_pos (by rw [htype]; rfl)
  rw [updateRows, runFrom_bind, runFrom_ask, hexpect]
  dsimp only
  split
  · rfl
  · rfl

theorem deleteRows_nil (htype : c.type = .selectionArray) :
    (deleteRows []).runFrom c = (.ok (.ofDeletedRows 0), c) := by
  have hother : ¬ c.type = .table := by simp [htype]
  rw [deleteRows, runFrom_bind, runFrom_get]
  dsimp only
  rw [if_neg hother, runFrom_bind, runFrom_ask, Context.expectType_eq htype]
  rfl

theorem update_none_agree (c c' : Context) (htype : c.type = .selection)
    (htype' : c'.type = .selectionArray) (hstate : c'.state = c.state) (arg : Argument) :
    ((update .null arg .undefined).runFrom c).2.state =
      ((update (.array []) arg .undefined).runFrom c').2.state := by
  have hmany : update (.array []) arg .undefined = do return (← updateRows [] arg).toValue := rfl
  rw [runFrom_update_null htype, hmany, runFrom_toValue, updateRows_nil htype', hstate]

theorem delete_none_agree (c c' : Context) (htype' : c'.type = .selectionArray)
    (hstate : c'.state = c.state) :
    ((delete .null).runFrom c).2.state = ((delete (.array [])).runFrom c').2.state ∧
      SameCounts ["deleted"] ((delete .null).runFrom c).1 ((delete (.array [])).runFrom c').1 := by
  have hmany : delete (.array []) = do return (← deleteRows []).toValue := rfl
  have hone : (delete .null).runFrom c = (.ok (Report.ofDeleted 0 1).toValue, c) := rfl
  rw [hone, hmany, runFrom_toValue, deleteRows_nil htype', hstate]
  refine ⟨rfl, _, _, rfl, rfl, ?_⟩
  simp [Report.counter_deleted, Report.ofDeleted, Report.ofDeletedRows]

section

variable {c' : Context} (h : c.Holds t live i row) (h' : c'.Holds t live i row)
  (htype : c.type = .selection) (htype' : c'.type = .selectionArray) (hstate : c'.state = c.state)
include h h' htype htype' hstate

/-- Both ways to update a row write the same; a patch that is refused is an error of the one and
counted by the other. -/
theorem update_agree (heval : (arg.evalRow row).runFrom c.state = (.ok (.object patch), s))
    (hstore : s.store = c.state.store) :
    ((update row arg .undefined).runFrom c).2.state =
        ((update (.array [row]) arg .undefined).runFrom c').2.state ∧
      (conflicts patch row = false → SameCounts ["replaced", "unchanged"]
        ((update row arg .undefined).runFrom c).1
        ((update (.array [row]) arg .undefined).runFrom c').1) ∧
      (conflicts patch row = true →
        ((update row arg .undefined).runFrom c).1 = .error .keyChanged ∧
        (∃ w, ((update (.array [row]) arg .undefined).runFrom c').1 = .ok w ∧
          w.counter "errors" = 1) ∧
        ((update row arg .undefined).runFrom c).2.state.store = c.state.store) := by
  have hone : update row arg .undefined = do return (← updateRow row arg).toValue := by
    obtain ⟨fields, rfl⟩ := h.exists_fields
    rfl
  have hmany : update (.array [row]) arg .undefined =
    do return (← updateRows [row] arg).toValue := rfl
  rw [hone, hmany, runFrom_toValue, runFrom_toValue, updateRow_eq h htype heval hstore,
    updateRows_eq h' htype' (hstate ▸ heval) (hstate ▸ hstore)]
  refine ⟨rfl, fun hfits => ?_, fun hconflict => ?_⟩
  · have hnot : ¬ conflicts patch row = true := by simp [hfits]
    have hcounts (replaced unchanged : Nat) : SameCounts ["replaced", "unchanged"]
        (.ok (Report.ofUpdated replaced unchanged).toValue)
        (.ok (Tally.report ⟨replaced, unchanged, 0⟩).toValue) := by
      refine ⟨_, _, rfl, rfl, ?_⟩
      simp [Report.counter_replaced, Report.counter_unchanged, Report.ofUpdated, Tally.report]
    rw [if_neg hnot, Tally.count, if_neg hnot]
    cases changes patch row with
    | true => exact hcounts 1 0
    | false => exact hcounts 0 1
  · refine ⟨?_, ⟨_, rfl, ?_⟩, ?_⟩
    · rw [if_pos hconflict]
      rfl
    · rw [Report.counter_errors, Tally.count, if_pos hconflict]
      rfl
    · dsimp only
      rw [State.patchAt, if_pos hconflict, hstore]

theorem delete_agree :
    ((delete row).runFrom c).2.state = ((delete (.array [row])).runFrom c').2.state ∧
      SameCounts ["deleted"] ((delete row).runFrom c).1 ((delete (.array [row])).runFrom c').1 := by
  have hone : delete row = do return (← deleteRow row).toValue := by
    obtain ⟨fields, rfl⟩ := h.exists_fields
    rfl
  have hmany : delete (.array [row]) = do return (← deleteRows [row]).toValue := rfl
  rw [hone, hmany, runFrom_toValue, runFrom_toValue, deleteRow_eq h htype, deleteRows_eq h' htype',
    hstate]
  refine ⟨rfl, _, _, rfl, rfl, ?_⟩
  simp [Report.counter_deleted, Report.ofDeleted, Report.ofDeletedRows]

theorem replace_agree (heval : (arg.evalRow row).runFrom c.state = (.ok (.object patch), s))
    (hstore : s.store = c.state.store) :
    ((replace row arg .undefined).runFrom c).1 =
        ((replace (.array [row]) arg .undefined).runFrom c').1 ∧
      ((replace row arg .undefined).runFrom c).2.state =
        ((replace (.array [row]) arg .undefined).runFrom c').2.state := by
  have hvalue := not_isNull_of_evalRow heval
  have hsome : row ≠ .null := by
    obtain ⟨fields, rfl⟩ := h.exists_fields
    simp
  have hmany : selectedRows (.array [row]) = [row] := rfl
  obtain ⟨outcome, last, hrun⟩ := exists_replaceRows t live i heval hstore
  rw [replace_eq (by rw [htype]; rfl) hvalue hsome, selectedRows_of_isRow h.isRow,
    replace_eq (by rw [htype']; rfl) hvalue (by simp), hmany, runFrom_toValue, runFrom_toValue,
    hrun c h rfl, hrun c' h' hstate]
  exact ⟨rfl, rfl⟩

end

end Mutation

namespace Term

def callWith (action : String) (receiver : Term) (args : List Argument) : Eval Value := do
  let e ← receiver.evaluate none
  let d ← ofExcept (Registry.builtin.describe action)
  return (← Registry.builtin.apply action e args d.type).value

variable {s : State} {receiver : Term} {args : List Argument} {e : Evaluated} {action : String}
  {d : Descriptor}

theorem runFrom_callWith (h : (receiver.evaluate none).runFrom s = (.ok e, s))
    (hd : Registry.builtin.describe action = .ok d) :
    (callWith action receiver args).runFrom s =
      let out := (Registry.builtin.invoke action e.value args).runFrom ⟨e.type, e.binding, s⟩
      (out.1, out.2.state) := by
  rw [callWith, Eval.runFrom_bind, h]
  dsimp only
  rw [Eval.runFrom_bind, Eval.runFrom_ofExcept, hd]
  dsimp only
  rw [Eval.runFrom_bind, Registry.runFrom_apply]
  dsimp only
  rcases (Registry.builtin.invoke action e.value args).runFrom ⟨e.type, e.binding, s⟩ with
    ⟨_ | v, c⟩
  · rfl
  · rfl

/-- So runs a call of a query, once its arguments have left the state as it was. -/
theorem Prepared.runFrom_call_eq {ts : List Term} (h : Prepared s receiver ts e args)
    (hd : Registry.builtin.describe action = .ok d) :
    ((call action receiver ts).run none).runFrom s = (callWith action receiver args).runFrom s :=
  (h.runFrom_call hd).trans (runFrom_callWith h.receiver_eq hd).symm

/-- A mutation of the row that `get` gives for a key and one of the row set that `getAll` gives
for it end in the same state. A deletion and an update count the same rows, except that a patch that
would change the key is an error of the one and counted as such by the other; a replacement of a
row that is there has the same outcome. -/
theorem get_getAll_agree {t : String} {live : List Value} {key : Value} {arg : Argument}
    (hlive : s.store.rows? t = some live) (hkeyed : KeyedBy (fun _ => True) live)
    (hlegal : key.isValidKey = true) (hdistinct : key.Distinct)
    (harg : ∀ row ∈ live, Value.hasId key row = true → arg.GivesObject s row) :
    let one (action : String) (args : List Argument) :=
      (callWith action (call "get" (table t) [datum key]) args).runFrom s
    let many (action : String) (args : List Argument) :=
      (callWith action (call "getAll" (table t) [datum key]) args).runFrom s
    (one "update" [arg]).2 = (many "update" [arg]).2 ∧
      (one "delete" []).2 = (many "delete" []).2 ∧
      SameCounts ["deleted"] (one "delete" []).1 (many "delete" []).1 ∧
      ∀ row ∈ live, Value.hasId key row = true →
        one "replace" [arg] = many "replace" [arg] ∧
        ∀ patch, ((arg.evalRow row).runFrom s).1 = .ok (.object patch) →
          (conflicts patch row = false → SameCounts ["replaced", "unchanged"]
            (one "update" [arg]).1 (many "update" [arg]).1) ∧
          (conflicts patch row = true → (one "update" [arg]).1 = .error .keyChanged ∧
            (∃ w, (many "update" [arg]).1 = .ok w ∧ w.counter "errors" = 1) ∧
            (one "update" [arg]).2.store = s.store) := by
  intro one many
  let c : Context := ⟨.selection, ⟨some t, live.findIdx? (Value.hasId key), some key⟩, s⟩
  let c' : Context := ⟨.selectionArray, { table := some t }, s⟩
  have hone {action : String} {d : Descriptor}
      (hd : Registry.builtin.describe action = .ok d) (args : List Argument) :
      one action args = let out := (Registry.builtin.invoke action
        ((live.find? (Value.hasId key)).getD .null) args).runFrom c
      (out.1, out.2.state) := runFrom_callWith (evaluate_get hlive hlegal) hd
  have hmany {action : String} {d : Descriptor}
      (hd : Registry.builtin.describe action = .ok d) (args : List Argument) :
      many action args = let out := (Registry.builtin.invoke action
        (.array (live.find? (Value.hasId key)).toList) args).runFrom c'
      (out.1, out.2.state) := by
    rw [← hkeyed.withKeys_eq hdistinct]
    exact runFrom_callWith (evaluate_getAll hlive hlegal) hd
  have hupdate : Registry.builtin.describe "update" =
    .ok ⟨.oneOrTwo, .datum, .binary Mutation.update⟩ := rfl
  have hdelete : Registry.builtin.describe "delete" =
    .ok ⟨.none, .datum, .nullary Mutation.delete⟩ := rfl
  have hreplace : Registry.builtin.describe "replace" =
    .ok ⟨.oneOrTwo, .datum, .binary Mutation.replace⟩ := rfl
  rw [hone hupdate, hmany hupdate, hone hdelete, hmany hdelete, hone hreplace, hmany hreplace]
  -- both select the row that has the key, or nothing
  cases hfind : live.find? (Value.hasId key) with
  | none =>
    have hupdated := Mutation.update_none_agree c c' rfl rfl rfl arg
    have hdeleted := Mutation.delete_none_agree c c' rfl rfl
    refine ⟨hupdated, hdeleted.1, hdeleted.2, fun row hrow hid => ?_⟩
    exact absurd hid (List.find?_eq_none.mp hfind row hrow)
  | some row =>
    have hmem := List.mem_of_find?_eq_some hfind
    have hid : Value.hasId key row = true := List.find?_some hfind
    obtain ⟨i, hi⟩ := List.mem_iff_getElem?.mp hmem
    obtain ⟨patch, next, heval, hstore⟩ := harg row hmem hid
    have hholds : c.Holds t live i row := ⟨rfl, hlive, hkeyed, hi⟩
    have hholds' : c'.Holds t live i row := ⟨rfl, hlive, hkeyed, hi⟩
    have hupdated := Mutation.update_agree hholds hholds' rfl rfl rfl heval hstore
    have hdeleted := Mutation.delete_agree hholds hholds' rfl rfl rfl
    have hreplaced := Mutation.replace_agree hholds hholds' rfl rfl rfl heval hstore
    refine ⟨hupdated.1, hdeleted.1, hdeleted.2, fun other hother hotherId => ?_⟩
    obtain rfl : other = row := by
      have hfilter := hkeyed.filter_hasId hdistinct
      rw [hfind] at hfilter
      have hin : other ∈ live.filter (Value.hasId key) := List.mem_filter.mpr ⟨hother, hotherId⟩
      rw [hfilter] at hin
      exact List.mem_singleton.mp hin
    refine ⟨Prod.ext hreplaced.1 hreplaced.2, fun patch' hpatch' => ?_⟩
    rw [heval] at hpatch'
    cases hpatch'
    exact hupdated.2

/-- The second of two rows gets a field from its own fields, by `get` and by `getAll`, and so it
does in the queries that have the patch as a term. -/
theorem get_getAll_agree_second :
    let first : Value := .object [("id", .bool true), ("v", .string "x")]
    let second : Value := .object [("id", .bool false), ("v", .string "y")]
    let merged : Value := .object [("id", .bool false), ("v", .string "y"), ("w", .string "y")]
    let s : State := ⟨⟨[("t", [first, second])]⟩, ⟨fun _ _ => ""⟩, 0⟩
    let key : Value := .bool false
    let p : Term := .object [("w", .call "bracket" .row [.datum (.string "v")])]
    let arg : Argument := .deferred fun inner => p.run (inner.or none)
    let one (action : String) (args : List Argument) :=
      (callWith action (call "get" (table "t") [datum key]) args).runFrom s
    let many (action : String) (args : List Argument) :=
      (callWith action (call "getAll" (table "t") [datum key]) args).runFrom s
    (s.store.rows? "t" = some [first, second] ∧ KeyedBy (fun _ => True) [first, second] ∧
        key.isValidKey = true ∧ key.Distinct ∧
        ∀ row ∈ [first, second], Value.hasId key row = true → arg.GivesObject s row) ∧
      (one "update" [arg]).2.store.rows? "t" = some [first, merged] ∧
      (many "update" [arg]).2 = (one "update" [arg]).2 ∧
      SameCounts ["replaced", "unchanged"] (one "update" [arg]).1 (many "update" [arg]).1 ∧
      (one "replace" [arg]).1 = .error .keyMissing ∧
      (many "replace" [arg]).1 = .error .keyMissing ∧
      ((call "update" (call "get" (table "t") [datum key]) [p]).run none).runFrom s =
        one "update" [arg] ∧
      ((call "update" (call "getAll" (table "t") [datum key]) [p]).run none).runFrom s =
        many "update" [arg] := by
  intro first second merged s key p arg one many
  have hlive : s.store.rows? "t" = some [first, second] := rfl
  have hkeyed : KeyedBy (fun _ => True) [first, second] := by
    refine ⟨?_, by decide⟩
    simp only [List.forall_mem_cons]
    exact ⟨⟨by decide, _, rfl, trivial⟩, ⟨by decide, _, rfl, trivial⟩, by simp⟩
  have heval : ((arg.evalRow second).runFrom s).1 = .ok (.object [("w", .string "y")]) := by cbv
  have hgives : ∀ row ∈ [first, second], Value.hasId key row = true → arg.GivesObject s row := by
    intro row hrow hid
    obtain rfl : row = second := by
      rcases List.mem_cons.mp hrow with rfl | hlast
      · exact absurd hid (by decide)
      · exact List.mem_singleton.mp hlast
    have hstate : ((arg.evalRow second).runFrom s).2 = s :=
      run_state (rfl : p.mutates = false) (some second) s
    exact ⟨_, s, Prod.ext heval hstate, rfl⟩
  have hlegal : key.isValidKey = true := rfl
  have hdistinct : key.Distinct := rfl
  obtain ⟨hupdate, -, -, hrow⟩ := get_getAll_agree hlive hkeyed hlegal hdistinct hgives
  obtain ⟨hreplace, hcounts⟩ := hrow second (by simp) rfl
  have hone : (one "replace" [arg]).1 = .error .keyMissing := by cbv
  have hargs : ([p].mapM fun t : Term => t.argumentIn .builtin none).runFrom s = (.ok [arg], s) :=
    rfl
  have hget := evaluate_get hlive hlegal
  have hgetAll := evaluate_getAll hlive hlegal
  refine ⟨⟨hlive, hkeyed, hlegal, hdistinct, hgives⟩, by cbv, hupdate.symm, ?_, hone, ?_, ?_, ?_⟩
  · exact (hcounts _ heval).1 rfl
  · exact (congrArg Prod.fst hreplace).symm.trans hone
  · exact Prepared.runFrom_call_eq ⟨hget, hargs⟩ rfl
  · exact Prepared.runFrom_call_eq ⟨hgetAll, hargs⟩ rfl

end Term

end TableQuery
