import TableQuery.Proofs.Loops
import TableQuery.Proofs.Selection.Deletion

namespace TableQuery

open Act

def conflicts (patch : Fields) (row : Value) : Bool :=
  match row.id?, Fields.get? primaryKey patch with
  | some old, some new => !old.equals new
  | _, _ => false

def patched (patch : Fields) (row : Value) : Value :=
  if conflicts patch row then row else row.merge (.object patch)

def changes (patch : Fields) (row : Value) : Bool := !row.equals (patched patch row)

def patchWhere (chosen : List Value) (patch : Value → Fields) (row : Value) : Value :=
  if hasKeyOf (keysOf chosen) row then patched (patch row) row else row

section

variable {admits : Value → Prop} {live done : List Value} {row : Value} {patch : Fields}

theorem SameKey.of_sameRow {a b : Value} (ha : IsRow admits a) (hb : IsRow admits b)
    (h : a.sameRow b = true) : SameKey a b := by
  obtain ⟨x, hx, -⟩ := ha.keyed
  obtain ⟨y, hy, -⟩ := hb.keyed
  exact ⟨x, y, hx, hy, (sameRow_of_id hx hy).symm.trans h⟩

theorem update?_eq (patch fields : Fields) : Fields.update? patch fields =
    if conflicts patch (.object fields) then none
    else some (Fields.merge fields patch, changes patch (.object fields)) := by
  have hid : (Value.object fields).id? = Fields.get? primaryKey fields := rfl
  have hmerge : (Value.object fields).merge (.object patch) =
      .object (Fields.merge fields patch) := by
    rw [Value.merge, Fields.mergeValue]
  unfold Fields.update? changes patched conflicts
  rw [hid, hmerge]
  rcases Fields.get? primaryKey fields with _ | old
  · rfl
  rcases Fields.get? primaryKey patch with _ | new
  · rfl
  dsimp only
  by_cases hequal : old.equals new = true <;> simp [hequal]

/-- A row keeps its key, whether it is patched or not. -/
theorem sameKey_patched (hadmits : Admission admits) (hrow : IsRow admits row)
    (hpatch : (Value.object patch).Distinct) : SameKey row (patched patch row) := by
  unfold patched
  split
  · exact .of_sameRow hrow hrow hrow.sameRow_self
  · next hfits =>
    obtain ⟨fields, _, rfl, -, -⟩ := hrow.exists_fields
    have hupdate := update?_eq patch fields
    rw [if_neg hfits] at hupdate
    obtain ⟨hnew, hsame⟩ := isRow_update? hadmits hrow hpatch hupdate
    rw [Value.merge, Fields.mergeValue]
    exact .of_sameRow hrow hnew hsame

/-- Patching a further row: the table changes at its position only. -/
theorem set_patchWhere (patch : Value → Fields) (hlive : KeyedBy admits live)
    (hsub : (done ++ [row]).Subperm live) {i : Nat} (hi : live[i]? = some row) :
    (live.map (patchWhere done patch)).set i (patched (patch row) row) =
      live.map (patchWhere (done ++ [row]) patch) := by
  have hbefore : done.Subperm live := (List.sublist_append_left done [row]).subperm.trans hsub
  apply List.ext_getElem?
  intro k
  rw [List.getElem?_set]
  have hchosen (r : Value) (hk : live[k]? = some r) :=
    mem_selected_iff hlive hsub (List.mem_of_getElem? hk)
  -- at the position of the row, and at the others
  split
  · next hik =>
    subst hik
    have hlt : i < (live.map (patchWhere done patch)).length := by
      rw [List.length_map]
      exact (List.getElem?_eq_some_iff.mp hi).1
    have hmem := (hchosen row hi).mpr (by simp)
    rw [if_pos hlt, List.getElem?_map, hi, Option.map_some, patchWhere, if_pos hmem]
  · next hik =>
    rw [List.getElem?_map, List.getElem?_map]
    cases hk : live[k]? with
    | none => rfl
    | some r =>
      have hne : r ≠ row := by
        intro heq
        subst heq
        exact hik (hlive.index_eq hi hk (hlive.getElem?_isRow hi).sameRow_self)
      have hsame : hasKeyOf (keysOf done) r = hasKeyOf (keysOf (done ++ [row])) r := by
        apply Bool.eq_iff_iff.mpr
        rw [hchosen r hk, mem_selected_iff hlive hbefore (List.mem_of_getElem? hk)]
        simp [hne]
      rw [Option.map_some, Option.map_some, patchWhere, patchWhere, hsame]

/-- The rows that were not met yet are as they were. -/
theorem getElem?_patchWhere (patch : Value → Fields) (hlive : KeyedBy admits live)
    (hsub : done.Subperm live) {i : Nat} (hi : live[i]? = some row) (hnew : row ∉ done) :
    (live.map (patchWhere done patch))[i]? = some row := by
  have hkey := mt (mem_selected_iff hlive hsub (List.mem_of_getElem? hi)).mp hnew
  rw [List.getElem?_map, hi, Option.map_some, patchWhere, if_neg hkey]

theorem sameKeys_patchWhere (hadmits : Admission admits) {patch : Value → Fields}
    (hlive : KeyedBy admits live) (hsub : done.Subperm live)
    (hpatch : ∀ row ∈ done, (Value.object (patch row)).Distinct) :
    SameKeys live (live.map (patchWhere done patch)) := by
  refine ⟨(List.length_map _).symm, fun i a b ha hb => ?_⟩
  have hrow := hlive.getElem?_isRow ha
  rw [List.getElem?_map, ha, Option.map_some, Option.some.injEq] at hb
  rw [← hb]
  unfold patchWhere
  split
  · next hkey =>
    have hmem := (mem_selected_iff hlive hsub (List.mem_of_getElem? ha)).mp hkey
    exact sameKey_patched hadmits hrow (hpatch a hmem)
  · exact .of_sameRow hrow hrow hrow.sameRow_self

end

namespace Mutation

variable {admits : Value → Prop} {c mid : Context} {t : String} {live now : List Value}
  {row : Value}

/-- A patch applied to the object at a position, and what is told about it. -/
theorem runFrom_applyPatch (patch : Fields) (h : Rewritten c t now mid) {i : Nat}
    (hi : now[i]? = some row) (hrow : row.isObject = true) :
    ∃ next, (applyPatch i patch).runFrom mid =
        (.ok (if conflicts patch row then none else some (changes patch row)), next) ∧
      Rewritten c t (now.set i (patched patch row)) next := by
  cases row <;> try cases hrow
  next fields =>
  rw [applyPatch, runFrom_bind, runFrom_ask, h.rows_eq]
  dsimp only
  rw [hi]
  dsimp only
  rw [update?_eq]
  by_cases hconflict : conflicts patch (.object fields) = true
  · have hsame : now.set i (patched patch (.object fields)) = now := by
      obtain ⟨hlt, hget⟩ := List.getElem?_eq_some_iff.mp hi
      rw [patched, if_pos hconflict, ← hget]
      exact List.set_getElem_self hlt
    rw [if_pos hconflict, if_pos hconflict, hsame]
    exact ⟨mid, rfl, h⟩
  · have hmerged : patched patch (.object fields) = .object (Fields.merge fields patch) := by
      rw [patched, if_neg hconflict, Value.merge, Fields.mergeValue]
    obtain ⟨next, hset, hnext⟩ := h.setRows (now.set i (.object (Fields.merge fields patch)))
    rw [if_neg hconflict, if_neg hconflict, hmerged]
    refine ⟨next, ?_, hnext⟩
    dsimp only
    rw [runFrom_bind, hset]
    rfl

def Tally.count (patch : Fields) (row : Value) (t : Tally) : Tally :=
  if conflicts patch row then { t with errors := t.errors + 1 }
  else if changes patch row then { t with replaced := t.replaced + 1 }
  else { t with unchanged := t.unchanged + 1 }

def Tally.countRows (patch : Value → Fields) (rows : List Value) (t : Tally) : Tally :=
  rows.foldl (fun t row => t.count (patch row) row) t

/-- A row of many is counted by what its patch does to the row that stands where it is found. -/
theorem runFrom_patchRow_of_applyPatch (tally : Tally) {patch : Fields} {stored : Value} {i : Nat}
    {next : Context} (hlocate : c.locate row = .ok (some i))
    (happly : (applyPatch i patch).runFrom c =
      (.ok (if conflicts patch stored then none else some (changes patch stored)), next)) :
    (patchRow tally row patch).runFrom c = (.ok (tally.count patch stored), next) := by
  rw [patchRow, runFrom_bind, runFrom_ask, hlocate]
  dsimp only
  rw [runFrom_bind, happly]
  unfold Tally.count
  by_cases hconflict : conflicts patch stored = true
  · rw [if_pos hconflict, if_pos hconflict]
    rfl
  · rw [if_neg hconflict, if_neg hconflict]
    cases changes patch stored <;> rfl

/-- One of many rows that is found again. -/
theorem runFrom_patchRow (patch : Fields) (tally : Tally) (h : Rewritten c t now mid) {i : Nat}
    (hlocate : mid.locate row = .ok (some i)) {stored : Value} (hi : now[i]? = some stored)
    (hstored : stored.isObject = true) :
    ∃ next, (patchRow tally row patch).runFrom mid = (.ok (tally.count patch stored), next) ∧
      Rewritten c t (now.set i (patched patch stored)) next := by
  obtain ⟨next, happly, hnext⟩ := runFrom_applyPatch patch h hi hstored
  exact ⟨next, runFrom_patchRow_of_applyPatch tally hlocate happly, hnext⟩

/-- The loop over the selected rows, by induction on the rows to come: those met before are
patched, and the others are found at their old positions. -/
theorem runFrom_patchRows (tally : Tally) (hadmits : Admission admits) (hlive : KeyedBy admits live)
    {patch : Value → Fields} {done rest : List Value} (hsub : (done ++ rest).Subperm live)
    (hpatch : ∀ row ∈ done ++ rest, (Value.object (patch row)).Distinct)
    (h : Rewritten c t (live.map (patchWhere done patch)) mid) :
    ∃ next, ((rest.zip (rest.map patch)).foldlM
        (fun done (row, patch) => patchRow done row patch) tally).runFrom mid =
        (.ok (tally.countRows patch rest), next) ∧
      Rewritten c t (live.map (patchWhere (done ++ rest) patch)) next := by
  induction rest generalizing done tally mid with
  | nil =>
    rw [List.append_nil]
    exact ⟨mid, rfl, h⟩
  | cons row rest ih =>
    have hsplit : done ++ row :: rest = done ++ [row] ++ rest := by simp
    rw [hsplit] at hsub hpatch ⊢
    have hone : (done ++ [row]).Subperm live :=
      (List.sublist_append_left _ rest).subperm.trans hsub
    have hbefore : done.Subperm live := (List.sublist_append_left done [row]).subperm.trans hone
    have hnew : row ∉ done := by
      have hnodup := hlive.nodup_of_subperm hone
      rw [List.nodup_append] at hnodup
      exact fun hmem => hnodup.2.2 row hmem row (by simp) rfl
    obtain ⟨i, hi⟩ := List.mem_iff_getElem?.mp (hone.subset (by simp : row ∈ done ++ [row]))
    have hkeys := sameKeys_patchWhere hadmits hlive hbefore fun r hr => hpatch r (by simp [hr])
    -- only rows met before have been written, so this one is still where it was
    have hthere := getElem?_patchWhere patch hlive hbefore hi hnew
    obtain ⟨next, hrun, hnext⟩ := runFrom_patchRow (patch row) tally h
      (h.locate_eq hlive hkeys hi hthere) hthere (hlive.getElem?_isRow hi).isObject
    rw [set_patchWhere patch hlive hone hi] at hnext
    obtain ⟨last, hrest, hlast⟩ := ih _ hsub hpatch hnext
    refine ⟨last, ?_, hlast⟩
    rw [List.map_cons, List.zip_cons_cons, List.foldlM_cons, runFrom_bind]
    dsimp only
    rw [hrun]
    exact hrest

/-- A row whose patch is refused does not change. -/
theorem changes_of_conflicts {patch : Fields} (hrow : IsRow admits row)
    (h : conflicts patch row = true) : changes patch row = false := by
  rw [changes, patched, if_pos h, Value.equals_refl hrow.distinct]
  rfl

/-- Every row counts once, as replaced, unchanged or in error. -/
theorem countRows_eq (patch : Value → Fields) {rows : List Value}
    (hrows : ∀ row ∈ rows, IsRow admits row) (tally : Tally) :
    (tally.countRows patch rows).replaced =
        tally.replaced + rows.countP (fun row => changes (patch row) row) ∧
      (tally.countRows patch rows).errors =
        tally.errors + rows.countP (fun row => conflicts (patch row) row) ∧
      (tally.countRows patch rows).errors + (tally.countRows patch rows).replaced +
          (tally.countRows patch rows).unchanged =
        tally.errors + tally.replaced + tally.unchanged + rows.length := by
  induction rows generalizing tally with
  | nil => exact ⟨rfl, rfl, rfl⟩
  | cons row rest ih =>
    have hrow := hrows row List.mem_cons_self
    have hrest := ih (fun r hr => hrows r (List.mem_cons_of_mem _ hr)) (tally.count (patch row) row)
    obtain ⟨hreplaced, herrors, htotal⟩ := hrest
    have hstep : tally.countRows patch (row :: rest) =
        (tally.count (patch row) row).countRows patch rest := rfl
    rw [hstep, hreplaced, herrors, List.countP_cons, List.countP_cons, List.length_cons]
    rw [hreplaced, herrors] at htotal
    unfold Tally.count at htotal ⊢
    -- a row in error is not replaced, so the three counters do not overlap
    by_cases hconflict : conflicts (patch row) row = true
    · have hsame := changes_of_conflicts hrow hconflict
      simp only [hconflict, hsame, if_true, Bool.false_eq_true, if_false] at htotal ⊢
      omega
    · by_cases hchange : changes (patch row) row = true
      · simp only [hconflict, hchange, if_true, Bool.false_eq_true, if_false] at htotal ⊢
        omega
      · simp only [hconflict, hchange, Bool.false_eq_true, if_false] at htotal ⊢
        omega

/-- What an update tells. Of many rows it counts those in error, those that changed and the
others; one row changes or not, or is refused a new key; `null` is skipped. -/
structure Reported (e : Evaluated) (patch : Value → Fields) (outcome : Except Error Value) :
    Prop where
  many : e.type.isStream = true → ∃ tally : Tally, outcome = .ok tally.report.toValue ∧
    tally.replaced = (selectedRows e.value).countP (fun row => changes (patch row) row) ∧
    tally.errors = (selectedRows e.value).countP (fun row => conflicts (patch row) row) ∧
    tally.errors + tally.replaced + tally.unchanged = (keysOf (selectedRows e.value)).length
  one : e.type = .selection → outcome =
    if e.value.isNull then .ok Report.ofSkipped.toValue
    else if conflicts (patch e.value) e.value then .error .keyChanged
    else if changes (patch e.value) e.value then .ok (Report.ofUpdated 1 0).toValue
    else .ok (Report.ofUpdated 0 1).toValue

def Patches (arg : Argument) (s : State) (patch : Value → Fields) (row : Value) : Prop :=
  (Value.object (patch row)).Distinct ∧
    (arg.evalRow row).runFrom s = (.ok (.object (patch row)), s)

variable {arg : Argument} {patch : Value → Fields} {rows : List Value}

theorem runFrom_asPatch (h : Patches arg c.state patch row) :
    (do ofExcept (asPatch (← evalRow row arg)) : Act Fields).runFrom c = (.ok (patch row), c) := by
  rw [runFrom_bind, evalRow, runFrom_ofEval, h.2]
  rfl

theorem runFrom_mapM {α β : Type} {f : α → Act β} {g : α → β} {xs : List α}
    (h : ∀ x ∈ xs, (f x).runFrom c = (.ok (g x), c)) :
    (xs.mapM f).runFrom c = (.ok (xs.map g), c) := by
  refine run_mapM_ok ?_
  rw [List.forall₂_map_right_iff, List.forall₂_same]
  exact h

/-- No row has the patch `null`. -/
theorem eq_nil_of_isNull {s : State} (hpatch : ∀ row ∈ rows, Patches arg s patch row)
    (hnull : arg.isNull = true) : rows = [] := by
  apply List.eq_nil_iff_forall_not_mem.mpr
  intro row hrow
  obtain ⟨-, heval⟩ := hpatch row hrow
  rcases arg with _ | v | run
  · cases hnull
  · cases v <;> cases hnull
    cases heval
  · cases hnull

theorem map_patchWhere_nil (patch : Value → Fields) (live : List Value) :
    live.map (patchWhere [] patch) = live := by
  rw [List.map_congr_left (g := id), List.map_id]
  intro row _
  simp [patchWhere, hasKeyOf, keysOf]

theorem runFrom_updateRows (hadmits : Admission admits) (hlive : KeyedBy admits live)
    (h : Rewritten c t live c) (htype : c.type.isSelection = true) (hsub : rows.Subperm live)
    (hpatch : ∀ row ∈ rows, Patches arg c.state patch row) :
    ∃ next, (updateRows rows arg).runFrom c =
        (.ok (Tally.countRows patch rows ⟨0, 0, 0⟩).report, next) ∧
      Rewritten c t (live.map (patchWhere rows patch)) next := by
  have hexpect : c.expectSelection = .ok () := if_pos htype
  have hstart : Rewritten c t (live.map (patchWhere [] patch)) c := by
    rw [map_patchWhere_nil]
    exact h
  rw [updateRows, runFrom_bind, runFrom_ask, hexpect]
  dsimp only
  -- `null` is no patch, so an update by it that has a patch for every row has no rows
  by_cases hnull : arg.isNull = true
  · have hnil := eq_nil_of_isNull hpatch hnull
    subst hnil
    rw [if_pos hnull]
    exact ⟨c, rfl, hstart⟩
  · have hpatches := runFrom_mapM fun row hrow => runFrom_asPatch (hpatch row hrow)
    have hall : ([] ++ rows).Subperm live := hsub
    obtain ⟨next, hrun, hnext⟩ := runFrom_patchRows ⟨0, 0, 0⟩ hadmits hlive hall
      (fun row hrow => (hpatch row hrow).1) hstart
    refine ⟨next, ?_, hnext⟩
    rw [if_neg hnull, runFrom_bind, hpatches]
    dsimp only
    rw [runFrom_bind, hrun]
    rfl

def writePatch (row : Value) (patch : Fields) : Act Report := do
  match ← ask (Context.locate row) with
  | none => return .ofSkipped
  | some index =>
    match ← applyPatch index patch with
    | some true => return .ofUpdated 1 0
    | some false => return .ofUpdated 0 1
    | none => throw .keyChanged

/-- An update of one row builds the patch and writes it. -/
theorem updateRow_eq_writePatch (htype : c.type = .selection) (hrow : row.isNull = false)
    (arg : Argument) : (updateRow row arg).runFrom c = match (evalRow row arg).runFrom c with
      | (.ok v, mid) => match asPatch v with
        | .ok patch => (writePatch row patch).runFrom mid
        | .error e => (.error e, mid)
      | (.error e, mid) => (.error e, mid) := by
  have hexpect : c.expectType .selection = .ok () := if_pos htype
  rw [updateRow, runFrom_bind, runFrom_ask, hexpect]
  dsimp only
  rw [if_neg (by simp [hrow]), runFrom_bind]
  rcases (evalRow row arg).runFrom c with ⟨e | v, mid⟩
  · rfl
  dsimp only
  rw [runFrom_bind, runFrom_ofExcept]
  cases asPatch v <;> rfl

/-- What is told of one row, by what its patch does to the row that stands where it is found. -/
theorem runFrom_writePatch_of_applyPatch {patch : Fields} {stored : Value} {i : Nat}
    {next : Context} (hlocate : c.locate row = .ok (some i))
    (happly : (applyPatch i patch).runFrom c =
      (.ok (if conflicts patch stored then none else some (changes patch stored)), next)) :
    (writePatch row patch).runFrom c =
      (if conflicts patch stored then .error .keyChanged
        else if changes patch stored then .ok (.ofUpdated 1 0) else .ok (.ofUpdated 0 1),
        next) := by
  rw [writePatch, runFrom_bind, runFrom_ask, hlocate]
  dsimp only
  rw [runFrom_bind, happly]
  by_cases hconflict : conflicts patch stored = true
  · rw [if_pos hconflict, if_pos hconflict]
    rfl
  · rw [if_neg hconflict, if_neg hconflict]
    cases changes patch stored <;> rfl

/-- A row that is found again: the patch is applied to what stands there. -/
theorem runFrom_writePatch (patch : Fields) {stored : Value} (h : Rewritten c t now mid) {i : Nat}
    (hlocate : mid.locate row = .ok (some i)) (hi : now[i]? = some stored)
    (hstored : stored.isObject = true) :
    ∃ next, (writePatch row patch).runFrom mid =
        (if conflicts patch stored then .error .keyChanged
          else if changes patch stored then .ok (.ofUpdated 1 0) else .ok (.ofUpdated 0 1),
          next) ∧
      Rewritten c t (now.set i (patched patch stored)) next := by
  obtain ⟨next, happly, hnext⟩ := runFrom_applyPatch patch h hi hstored
  exact ⟨next, runFrom_writePatch_of_applyPatch hlocate happly, hnext⟩

theorem runFrom_updateRow (hlive : KeyedBy admits live) (h : Rewritten c t live c)
    (htype : c.type = .selection) {i : Nat} (hi : live[i]? = some row)
    (hpatch : Patches arg c.state patch row) :
    ∃ next, (updateRow row arg).runFrom c =
        (if conflicts (patch row) row then .error .keyChanged
          else if changes (patch row) row then .ok (.ofUpdated 1 0) else .ok (.ofUpdated 0 1),
          next) ∧
      Rewritten c t (live.set i (patched (patch row) row)) next := by
  have hrow := (hlive.getElem?_isRow hi).isObject
  have heval : (evalRow row arg).runFrom c = (.ok (.object (patch row)), c) := by
    rw [evalRow, runFrom_ofEval, hpatch.2]
  have hsome : row.isNull = false := by cases row <;> first | rfl | cases hrow
  rw [updateRow_eq_writePatch htype hsome, heval]
  exact runFrom_writePatch (patch row) h (h.locate_eq hlive (.refl hlive) hi hi) hi hrow

theorem runFrom_update_array (hadmits : Admission admits) (hlive : KeyedBy admits live)
    (h : Rewritten c t live c) (htype : c.type.isSelection = true) (hsub : rows.Subperm live)
    (hpatch : ∀ row ∈ rows, Patches arg c.state patch row) :
    ∃ next, (update (.array rows) arg .undefined).runFrom c =
        (.ok (Tally.countRows patch rows ⟨0, 0, 0⟩).report.toValue, next) ∧
      Rewritten c t (live.map (patchWhere rows patch)) next := by
  obtain ⟨next, hrun, hnext⟩ := runFrom_updateRows hadmits hlive h htype hsub hpatch
  refine ⟨next, ?_, hnext⟩
  change (do return (← updateRows rows arg).toValue : Act Value).runFrom c = _
  rw [runFrom_bind, hrun]
  rfl

theorem runFrom_update_row (hlive : KeyedBy admits live) (h : Rewritten c t live c)
    (htype : c.type = .selection) (hmem : row ∈ live) (hpatch : Patches arg c.state patch row) :
    ∃ next, (update row arg .undefined).runFrom c =
        (if conflicts (patch row) row then .error .keyChanged
          else if changes (patch row) row then .ok (Report.ofUpdated 1 0).toValue
          else .ok (Report.ofUpdated 0 1).toValue, next) ∧
      Rewritten c t (live.map (patchWhere [row] patch)) next := by
  obtain ⟨i, hi⟩ := List.mem_iff_getElem?.mp hmem
  obtain ⟨next, hrun, hnext⟩ := runFrom_updateRow hlive h htype hi hpatch
  have hone : ([] ++ [row]).Subperm live := List.singleton_subperm_iff.mpr hmem
  have hset := set_patchWhere patch hlive hone hi
  rw [map_patchWhere_nil] at hset
  rw [hset] at hnext
  refine ⟨next, ?_, hnext⟩
  have hupdate : update row arg .undefined = do return (← updateRow row arg).toValue := by
    obtain ⟨fields, _, rfl, -, -⟩ := (hlive.isRow row hmem).exists_fields
    rfl
  rw [hupdate, runFrom_bind, hrun]
  by_cases hconflict : conflicts (patch row) row = true
  · rw [if_pos hconflict, if_pos hconflict]
  · rw [if_neg hconflict, if_neg hconflict]
    cases changes (patch row) row <;> rfl

theorem runFrom_update_null (htype : c.type = .selection) :
    (update .null arg .undefined).runFrom c = (.ok Report.ofSkipped.toValue, c) := by
  have hexpect : c.expectType .selection = .ok () := if_pos htype
  change (do return (← updateRow .null arg).toValue : Act Value).runFrom c = _
  rw [runFrom_bind, updateRow, runFrom_bind, runFrom_ask, hexpect]
  rfl

theorem reported_array {e : Evaluated} (hvalue : e.value = .array rows)
    (hother : e.type ≠ .selection) (hrows : ∀ row ∈ rows, IsRow admits row) :
    Reported e patch (.ok (Tally.countRows patch rows ⟨0, 0, 0⟩).report.toValue) := by
  have hselected : selectedRows e.value = rows := by rw [hvalue]; rfl
  obtain ⟨hreplaced, herrors, htotal⟩ := countRows_eq patch hrows ⟨0, 0, 0⟩
  refine ⟨fun _ => ⟨_, rfl, ?_⟩, fun htype => absurd htype hother⟩
  rw [hselected, length_keysOf hrows, hreplaced, herrors]
  rw [hreplaced, herrors] at htotal
  simpa using htotal

/-- An update patches the rows that are selected, and no others, and tells how they fared. -/
theorem runFrom_update {s : State} {e : Evaluated} (hadmits : Admission admits)
    (h : Selects s e t live) (hlive : KeyedBy admits live)
    (hpatch : ∀ row ∈ selectedRows e.value, Patches arg s patch row) :
    ∃ next outcome, (update e.value arg .undefined).runFrom ⟨e.type, e.binding, s⟩ =
        (outcome, next) ∧
      Reported e patch outcome ∧
      Rewritten ⟨e.type, e.binding, s⟩ t (live.map (patchWhere (selectedRows e.value) patch))
        next := by
  have hstart : Rewritten ⟨e.type, e.binding, s⟩ t live ⟨e.type, e.binding, s⟩ :=
    .refl h.table_eq h.rows_eq
  -- a table and a row set go through the same loop
  have hmany {rows : List Value} (hvalue : e.value = .array rows)
      (htype : e.type.isSelection = true) (hother : e.type ≠ .selection)
      (hsub : rows.Subperm live) : ∃ next outcome,
        (update e.value arg .undefined).runFrom ⟨e.type, e.binding, s⟩ = (outcome, next) ∧
        Reported e patch outcome ∧ Rewritten ⟨e.type, e.binding, s⟩ t
          (live.map (patchWhere (selectedRows e.value) patch)) next := by
    have hselected : selectedRows e.value = rows := by rw [hvalue]; rfl
    rw [hselected] at hpatch ⊢
    obtain ⟨next, hrun, hnext⟩ := runFrom_update_array hadmits hlive hstart htype hsub hpatch
    rw [hvalue]
    have hrows (row : Value) (hrow : row ∈ rows) := hlive.isRow row (hsub.subset hrow)
    exact ⟨next, _, hrun, reported_array hvalue hother hrows, hnext⟩
  rcases h.value_cases with ⟨htype, hvalue⟩ | ⟨htype, rows, hvalue, hsub⟩ | ⟨htype, hnull | hmem⟩
  · exact hmany hvalue (by rw [htype]; rfl) (by simp [htype]) (.refl live)
  · exact hmany hvalue (by rw [htype]; rfl) (by simp [htype]) hsub
  · have hrun : (update .null arg .undefined).runFrom ⟨e.type, e.binding, s⟩ = _ :=
      runFrom_update_null htype
    have hselected : selectedRows e.value = [] := by rw [hnull]; rfl
    rw [hselected, map_patchWhere_nil]
    refine ⟨_, _, hnull ▸ hrun, ⟨fun hstream => ?_, fun _ => ?_⟩, hstart⟩
    · rw [htype] at hstream
      cases hstream
    · rw [hnull]
      rfl
  · have hrow := hlive.isRow _ hmem
    have hsome : ¬ e.value.isNull = true := by
      obtain ⟨fields, _, hfields, -, -⟩ := hrow.exists_fields
      simp [hfields, Value.isNull]
    rw [selectedRows_of_isRow hrow] at hpatch ⊢
    obtain ⟨next, hrun, hnext⟩ :=
      runFrom_update_row hlive hstart htype hmem (hpatch _ List.mem_cons_self)
    refine ⟨next, _, hrun, ⟨fun hstream => ?_, fun _ => ?_⟩, hnext⟩
    · rw [htype] at hstream
      cases hstream
    · rw [if_neg hsome]

end Mutation

end TableQuery
