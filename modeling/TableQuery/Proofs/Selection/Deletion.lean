import TableQuery.Proofs.PrimaryKey.Writing
import TableQuery.Proofs.Selection.Selected

namespace TableQuery

open Act

structure Rewritten (c : Context) (t : String) (rows : List Value) (next : Context) : Prop where
  type_eq : next.type = c.type
  table_eq : next.binding.table = some t
  rows?_eq : ∀ name, next.state.store.rows? name =
    if name = t then some rows else c.state.store.rows? name

namespace Rewritten

variable {c mid next : Context} {t : String} {rows : List Value}

theorem refl (htable : c.binding.table = some t) (hrows : c.state.store.rows? t = some rows) :
    Rewritten c t rows c := by
  refine ⟨rfl, htable, fun name => ?_⟩
  split
  · next heq => rw [heq, hrows]
  · rfl

theorem rows_eq (h : Rewritten c t rows mid) : mid.rows = .ok rows := by
  apply Context.rows_eq_ok.mpr
  refine ⟨t, h.table_eq, ?_⟩
  rw [h.rows?_eq, if_pos rfl]

theorem setRows (h : Rewritten c t rows mid) (new : List Value) :
    ∃ next, (setRows new).runFrom mid = (.ok (), next) ∧ Rewritten c t new next := by
  have hset := runFrom_setRows new mid
  rw [h.table_eq] at hset
  refine ⟨_, hset, h.type_eq, h.table_eq, fun name => ?_⟩
  dsimp only
  rw [Store.rows?_load, h.rows?_eq]
  split <;> rfl

/-- Where a row is found is told by the rows that the table has. -/
theorem locate_position (h : Rewritten c t rows mid) (row : Value) :
    mid.locate row = .ok (Context.position mid.binding.rowIndex row rows) := by
  rw [Context.locate, h.rows_eq]
  rfl

theorem locate_eq (h : Rewritten c t rows mid) {live : List Value} {admits : Value → Prop}
    {row : Value} {i : Nat} (hlive : KeyedBy admits live) (hkeys : SameKeys live rows)
    (hi : live[i]? = some row) (hrow : rows[i]? = some row) :
    mid.locate row = .ok (some i) := by
  rw [h.locate_position, hkeys.position_eq hlive hi hrow]

end Rewritten

/-- Taking out the one item that a test rejects. -/
theorem filter_eq_eraseIdx {p : Value → Bool} {xs : List Value} {i : Nat}
    (h : ∀ (k : Nat) (x : Value), xs[k]? = some x → (p x = true ↔ k ≠ i)) :
    xs.filter p = xs.eraseIdx i := by
  induction xs generalizing i with
  | nil => rfl
  | cons x rest ih =>
    cases i with
    | zero =>
      have hx : ¬ p x = true := fun hp => (h 0 x rfl).mp hp rfl
      have hrest : rest.filter p = rest := by
        apply List.filter_eq_self.mpr
        intro y hy
        obtain ⟨k, hk⟩ := List.mem_iff_getElem?.mp hy
        exact (h (k + 1) y hk).mpr (by omega)
      rw [List.filter_cons_of_neg hx, hrest, List.eraseIdx_zero, List.tail_cons]
    | succ i =>
      have hx : p x = true := (h 0 x rfl).mpr (by omega)
      have hrest : rest.filter p = rest.eraseIdx i := by
        apply ih
        intro k y hk
        rw [h (k + 1) y hk]
        omega
      rw [List.filter_cons_of_pos hx, hrest, List.eraseIdx_cons_succ]

namespace Mutation

variable {admits : Value → Prop} {c : Context} {t : String} {live rows : List Value} {row : Value}

def unselected (keys : List Value) (rows : List Value) : List Value :=
  rows.filter fun row => !hasKeyOf keys row

theorem unselected_nil : unselected (keysOf []) live = live := by
  apply List.filter_eq_self.mpr
  intro row _
  simp [hasKeyOf, keysOf]

theorem unselected_all (hlive : KeyedBy admits live) : unselected (keysOf live) live = [] := by
  apply List.filter_eq_nil_iff.mpr
  intro row hrow
  simp [(mem_selected_iff hlive (.refl live) hrow).mpr hrow]

/-- Where a row is selected, it is the same as a selected row. -/
theorem remaining_eq (hlive : KeyedBy admits live) (hsub : rows.Subperm live) :
    remaining rows live = unselected (keysOf rows) live := by
  apply List.filter_congr
  intro row hrow
  congr 1
  apply Bool.eq_iff_iff.mpr
  rw [mem_selected_iff hlive hsub hrow, List.any_eq_true]
  constructor
  · rintro ⟨other, hother, hsame⟩
    rw [hlive.eq_of_sameRow hrow (hsub.subset hother) hsame]
    exact hother
  · exact fun hmem => ⟨row, hmem, (hlive.isRow row hrow).sameRow_self⟩

/-- As many rows go as are selected. -/
theorem length_unselected (hlive : KeyedBy admits live) (hsub : rows.Subperm live) :
    live.length - (unselected (keysOf rows) live).length = (keysOf rows).length := by
  have hkeys : (keysOf rows).length = rows.length :=
    length_keysOf fun row hrow => hlive.isRow row (hsub.subset hrow)
  have hselected : (live.filter (hasKeyOf (keysOf rows))).Perm rows := by
    apply (List.perm_ext_iff_of_nodup (hlive.nodup.filter _) (hlive.nodup_of_subperm hsub)).mpr
    intro row
    rw [List.mem_filter]
    constructor
    · rintro ⟨hrow, hkey⟩
      exact (mem_selected_iff hlive hsub hrow).mp hkey
    · intro hrow
      have hmem := hsub.subset hrow
      exact ⟨hmem, (mem_selected_iff hlive hsub hmem).mpr hrow⟩
  have hsplit := List.length_eq_length_filter_add (l := live) (hasKeyOf (keysOf rows))
  have hlength := hselected.length_eq
  rw [hkeys]
  unfold unselected
  omega

theorem unselected_single (hlive : KeyedBy admits live) {i : Nat} (hi : live[i]? = some row) :
    unselected (keysOf [row]) live = live.eraseIdx i := by
  have hsub : [row].Subperm live := by
    rw [List.singleton_subperm_iff]
    exact List.mem_of_getElem? hi
  apply filter_eq_eraseIdx
  intro k other hk
  have hmem := mem_selected_iff hlive hsub (List.mem_of_getElem? hk)
  rw [Bool.not_eq_true', ← Bool.not_eq_true, hmem, List.mem_singleton]
  apply not_congr
  constructor
  · intro heq
    subst heq
    exact hlive.index_eq hk hi (hlive.getElem?_isRow hk).sameRow_self
  · intro heq
    subst heq
    exact Option.some.inj (hk.symm.trans hi)

theorem runFrom_deleteRows_table (rows : List Value) (h : Rewritten c t live c)
    (htype : c.type = .table) :
    ∃ next, (deleteRows rows).runFrom c = (.ok (.ofDeletedRows live.length), next) ∧
      Rewritten c t [] next := by
  obtain ⟨next, hset, hnext⟩ := h.setRows []
  refine ⟨next, ?_, hnext⟩
  rw [deleteRows, runFrom_bind, runFrom_get]
  dsimp only
  rw [if_pos htype, runFrom_bind, runFrom_ask, h.rows_eq]
  dsimp only
  rw [runFrom_bind, hset]
  rfl

theorem runFrom_deleteRows_array (rows : List Value) (h : Rewritten c t live c)
    (htype : c.type = .selectionArray) :
    ∃ next, (deleteRows rows).runFrom c =
        (.ok (.ofDeletedRows (live.length - (remaining rows live).length)), next) ∧
      Rewritten c t (remaining rows live) next := by
  have hexpect : c.expectType .selectionArray = .ok () := if_pos htype
  have hother : ¬ c.type = .table := by simp [htype]
  rw [deleteRows, runFrom_bind, runFrom_get]
  dsimp only
  rw [if_neg hother, runFrom_bind, runFrom_ask, hexpect]
  dsimp only
  cases rows with
  | nil =>
    have hnone : remaining [] live = live := List.filter_eq_self.mpr (by simp)
    rw [hnone, Nat.sub_self]
    exact ⟨c, rfl, h⟩
  | cons row rest =>
    obtain ⟨next, hset, hnext⟩ := h.setRows (remaining (row :: rest) live)
    refine ⟨next, ?_, hnext⟩
    rw [List.isEmpty_cons, if_neg (by simp), runFrom_bind, runFrom_ask, h.rows_eq]
    dsimp only
    rw [runFrom_bind, hset]
    rfl

theorem runFrom_deleteRow (h : Rewritten c t live c) (htype : c.type = .selection)
    (hlive : KeyedBy admits live) {i : Nat} (hi : live[i]? = some row) :
    ∃ next, (deleteRow row).runFrom c = (.ok (.ofDeleted 1 0), next) ∧
      Rewritten c t (live.eraseIdx i) next := by
  have hexpect : c.expectType .selection = .ok () := if_pos htype
  obtain ⟨fields, _, rfl, -, -⟩ := (hlive.getElem?_isRow hi).exists_fields
  obtain ⟨next, hset, hnext⟩ := h.setRows (live.eraseIdx i)
  rw [deleteRow, if_neg (by simp [Value.isNull]), runFrom_bind, runFrom_ask, hexpect]
  dsimp only
  rw [runFrom_bind, runFrom_ask, h.locate_eq hlive (.refl hlive) hi hi]
  dsimp only
  rw [runFrom_bind, runFrom_ask, h.rows_eq]
  dsimp only
  rw [runFrom_bind, hset]
  exact ⟨_, rfl, hnext.type_eq, hnext.table_eq, hnext.rows?_eq⟩

/-- A deletion takes out the rows that are selected and reports how many they are. -/
theorem runFrom_delete {s : State} {e : Evaluated} (h : Selects s e t live)
    (hlive : KeyedBy admits live) :
    ∃ (report : Report) (next : Context),
      (delete e.value).runFrom ⟨e.type, e.binding, s⟩ = (.ok report.toValue, next) ∧
      report.deleted = some (keysOf (selectedRows e.value)).length ∧
      Rewritten ⟨e.type, e.binding, s⟩ t (unselected (keysOf (selectedRows e.value)) live)
        next := by
  have hstart : Rewritten ⟨e.type, e.binding, s⟩ t live ⟨e.type, e.binding, s⟩ :=
    .refl h.table_eq h.rows_eq
  have hmany {rows : List Value} {report : Report} {next : Context}
      (hrun : (deleteRows rows).runFrom ⟨e.type, e.binding, s⟩ = (.ok report, next)) :
      (delete (.array rows)).runFrom ⟨e.type, e.binding, s⟩ = (.ok report.toValue, next) := by
    change (do return (← deleteRows rows).toValue : Act Value).runFrom _ = _
    rw [runFrom_bind, hrun]
    rfl
  -- a table is emptied without a look at the rows, a row set is compared with the live rows
  rcases h.value_cases with ⟨htype, hvalue⟩ | ⟨htype, rows, hrows, hsub⟩ | ⟨htype, hnull | hmem⟩
  · obtain ⟨next, hrun, hnext⟩ := runFrom_deleteRows_table live hstart htype
    rw [hvalue]
    refine ⟨_, next, hmany hrun, ?_, ?_⟩
    · rw [selectedRows, length_keysOf hlive.isRow]
      rfl
    · rw [selectedRows, unselected_all hlive]
      exact hnext
  · obtain ⟨next, hrun, hnext⟩ := runFrom_deleteRows_array rows hstart htype
    rw [remaining_eq hlive hsub, length_unselected hlive hsub] at hrun
    rw [remaining_eq hlive hsub] at hnext
    rw [hrows]
    exact ⟨_, next, hmany hrun, rfl, hnext⟩
  · rw [hnull]
    refine ⟨.ofDeleted 0 1, _, rfl, rfl, ?_⟩
    rw [selectedRows, unselected_nil]
    exact hstart
  · obtain ⟨i, hi⟩ := List.mem_iff_getElem?.mp hmem
    have hrow := hlive.isRow _ hmem
    obtain ⟨next, hrun, hnext⟩ := runFrom_deleteRow hstart htype hlive hi
    rw [selectedRows_of_isRow hrow, unselected_single hlive hi]
    refine ⟨.ofDeleted 1 0, next, ?_, ?_, hnext⟩
    · obtain ⟨fields, _, hfields, -, -⟩ := hrow.exists_fields
      rw [hfields] at hrun ⊢
      change (do return (← deleteRow (.object fields)).toValue : Act Value).runFrom _ = _
      rw [runFrom_bind, hrun]
      rfl
    · rw [length_keysOf fun row hmem => List.mem_singleton.mp hmem ▸ hrow]
      rfl

end Mutation

end TableQuery
