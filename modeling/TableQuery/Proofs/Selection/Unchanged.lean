import Mathlib
import TableQuery.Proofs.Selection.Update
import TableQuery.Proofs.Value.Restated

namespace TableQuery

variable {row patch updated : Fields} {changed : Bool}

namespace Fields

theorem update?_eq_some (h : update? patch row = some (updated, changed)) :
    updated = merge row patch ∧
      changed = !(Value.object row).equals (.object (merge row patch)) := by
  unfold update? at h
  dsimp only at h
  split at h
  · split at h <;> cases h
    exact ⟨rfl, rfl⟩
  · cases h
    exact ⟨rfl, rfl⟩

/-- A row that is as it was is never called changed. -/
theorem changed_of_eq (hrow : (Value.object row).Distinct)
    (h : update? patch row = some (updated, changed)) (hsame : updated = row) :
    changed = false := by
  obtain ⟨hmerged, rfl⟩ := update?_eq_some h
  rw [← hmerged, hsame, Value.equals_refl hrow]
  rfl

variable (hrow : (Value.object row).Distinct) (hpatch : (Value.object patch).Distinct)
  (h : update? patch row = some (updated, changed))

include hrow hpatch h

/-- The flag is not set exactly if the patch restates the row up to equality. -/
theorem changed_eq_false_iff : changed = false ↔
    Value.Restated (fun a b => a.equals b = true) (some (.object row)) (.object patch) := by
  obtain ⟨-, rfl⟩ := update?_eq_some h
  have hmerge := Value.compares_equals.merge_iff hrow hpatch
  rw [mergeValue] at hmerge
  rw [← hmerge, Bool.not_eq_false']

/-- The row is as it was exactly if the patch restates it as it is. -/
theorem updated_eq_iff :
    updated = row ↔ Value.Restated (· = ·) (some (.object row)) (.object patch) := by
  obtain ⟨rfl, -⟩ := update?_eq_some h
  have hmerge := Value.compares_eq.merge_iff hrow hpatch
  rw [mergeValue, Value.object.injEq] at hmerge
  rw [← hmerge, eq_comm]

end Fields

/-- Writing a value over another one leaves a list as it is exactly if both are the same. -/
theorem set_eq_self_iff {α : Type} {xs : List α} {i : Nat} {old new : α} (hi : xs[i]? = some old) :
    xs.set i new = xs ↔ new = old := by
  obtain ⟨hlt, hget⟩ := List.getElem?_eq_some_iff.mp hi
  constructor
  · intro hset
    have hthere : (xs.set i new)[i]? = some new := List.getElem?_set_self hlt
    rw [hset, hi] at hthere
    exact (Option.some.inj hthere).symm
  · intro hsame
    rw [hsame, ← hget]
    exact List.set_getElem_self hlt

namespace Mutation

open Act

variable {c : Context} {t : String} {live : List Value} {i : Nat} {arg : Argument}

/-- An update of the row at the bound position stores what the merge gives and reports what the flag
says. -/
theorem runFrom_update_bound (hrow : (Value.object row).Distinct)
    (h : Fields.update? patch row = some (updated, changed)) (htype : c.type = .selection)
    (htable : c.binding.table = some t) (hindex : c.binding.rowIndex = some i)
    (hlive : c.state.store.rows? t = some live) (hi : live[i]? = some (.object row))
    (heval : (evalRow (.object row) arg).runFrom c = (.ok (.object patch), c)) :
    ∃ next, (update (.object row) arg .undefined).runFrom c =
        (.ok (if changed then Report.ofUpdated 1 0 else Report.ofUpdated 0 1).toValue, next) ∧
      ∀ name, next.state.store.rows? name =
        if name = t then some (live.set i (.object updated)) else c.state.store.rows? name := by
  -- the bound position still holds the row, so it is found there
  have hlocate : c.locate (.object row) = .ok (some i) := by
    have hrows : c.rows = .ok live := Context.rows_eq_ok.mpr ⟨t, htable, hlive⟩
    rw [Context.locate, hrows, hindex]
    exact congrArg Except.ok (position_of_same hi (Value.sameRow_self hrow))
  obtain ⟨next, hwrite, hnext⟩ := runFrom_writePatch patch (.refl htable hlive) hlocate hi rfl
  have hrun : (updateRow (.object row) arg).runFrom c =
      (writePatch (.object row) patch).runFrom c := by
    rw [updateRow_eq_writePatch htype rfl, heval]
    rfl
  have hupdate := update?_eq patch row
  rw [h] at hupdate
  split at hupdate
  · cases hupdate
  next hfits =>
  obtain ⟨rfl, rfl⟩ := Prod.mk.inj (Option.some.inj hupdate)
  have hmerged : patched patch (.object row) = .object (Fields.merge row patch) := by
    rw [patched, if_neg hfits, Value.merge, Fields.mergeValue]
  rw [hmerged] at hnext
  refine ⟨next, ?_, hnext.rows?_eq⟩
  change (do return (← updateRow (.object row) arg).toValue : Act Value).runFrom c = _
  rw [runFrom_bind, hrun, hwrite, if_neg hfits]
  cases changes patch (.object row) <;> rfl

/-- The flag is not set if the patch restates the row up to equality, and the row is not altered if
the patch restates it as it is. So the flag tells whether the row was altered exactly if the first
gives the second. The table is altered by an update of the row if the row is, whatever the report
says. -/
theorem update_unaltered_iff (hrow : (Value.object row).Distinct)
    (hpatch : (Value.object patch).Distinct)
    (h : Fields.update? patch row = some (updated, changed)) :
    ((changed = false ↔ updated = row) ↔
      (Value.Restated (fun a b => a.equals b = true) (some (.object row)) (.object patch) →
        Value.Restated (· = ·) (some (.object row)) (.object patch))) ∧
      (changed = false ↔
        Value.Restated (fun a b => a.equals b = true) (some (.object row)) (.object patch)) ∧
      (updated = row ↔ Value.Restated (· = ·) (some (.object row)) (.object patch)) ∧
      ∀ (c : Context) (t : String) (live : List Value) (i : Nat) (arg : Argument),
        c.type = .selection → c.binding.table = some t → c.binding.rowIndex = some i →
        c.state.store.rows? t = some live → live[i]? = some (.object row) →
        (evalRow (.object row) arg).runFrom c = (.ok (.object patch), c) →
        ∃ next, (update (.object row) arg .undefined).runFrom c =
            (.ok (if changed then Report.ofUpdated 1 0 else Report.ofUpdated 0 1).toValue, next) ∧
          (next.state.store.rows? t = some live ↔ updated = row) ∧
          ∀ name, name ≠ t → next.state.store.rows? name = c.state.store.rows? name := by
  have hunchanged := Fields.changed_eq_false_iff hrow hpatch h
  have hunaltered := Fields.updated_eq_iff hrow hpatch h
  refine ⟨?_, hunchanged, hunaltered, ?_⟩
  · rw [← hunchanged, ← hunaltered]
    constructor
    · exact fun hiff => hiff.mp
    · intro himp
      exact ⟨himp, Fields.changed_of_eq hrow h⟩
  · intro c t live i arg htype htable hindex hlive hi heval
    obtain ⟨next, hrun, hnext⟩ := runFrom_update_bound hrow h htype htable hindex hlive hi heval
    refine ⟨next, hrun, ?_, ?_⟩
    · rw [hnext, if_pos rfl, Option.some.injEq, set_eq_self_iff hi, Value.object.injEq]
    · intro name hname
      rw [hnext, if_neg hname]

/-- A patch that names a field with the value that it has. -/
theorem update_unaltered_iff_same :
    let row : Fields := [("id", .bool true), ("v", .object [("w", .string "x")])]
    let patch : Fields := [("v", .object [("w", .string "x")])]
    let c : Context := ⟨.selection, { table := some "t", rowIndex := some 0 },
      ⟨⟨[("t", [.object row])]⟩, ⟨fun _ _ => ""⟩, 0⟩⟩
    Fields.update? patch row = some (row, false) ∧
      Value.Restated (· = ·) (some (.object row)) (.object patch) ∧
      ∃ next, (update (.object row) (.datum (.object patch)) .undefined).runFrom c =
          (.ok (Report.ofUpdated 0 1).toValue, next) ∧
        next.state.store.rows? "t" = some [.object row] := by
  intro row patch c
  have h : Fields.update? patch row = some (row, false) := by cbv
  obtain ⟨-, -, hrestated, hrun⟩ := update_unaltered_iff (by decide) (by decide) h
  obtain ⟨next, hreport, hrows, -⟩ :=
    hrun c "t" [.object row] 0 (.datum (.object patch)) rfl rfl rfl rfl rfl rfl
  exact ⟨h, hrestated.mp rfl, next, hreport, hrows.mpr rfl⟩

/-- The next integer after `2^53` is equal to it as a binary64 number: the row is reported as
unchanged and altered in the table. -/
theorem not_unaltered_next :
    let row : Fields := [("id", .bool true), ("n", .number (.int 9007199254740992))]
    let patch : Fields := [("n", .number (.int 9007199254740993))]
    let updated : Fields := [("id", .bool true), ("n", .number (.int 9007199254740993))]
    let c : Context := ⟨.selection, { table := some "t", rowIndex := some 0 },
      ⟨⟨[("t", [.object row])]⟩, ⟨fun _ _ => ""⟩, 0⟩⟩
    Fields.update? patch row = some (updated, false) ∧ updated ≠ row ∧
      ∃ next, (update (.object row) (.datum (.object patch)) .undefined).runFrom c =
          (.ok (Report.ofUpdated 0 1).toValue, next) ∧
        next.state.store.rows? "t" = some [.object updated] := by
  intro row patch updated c
  have hequal : (Value.object row).equals (.object updated) = true := by decide +kernel
  have h : Fields.update? patch row = some (updated, false) := by
    have hupdate : Fields.update? patch row =
        some (updated, !(Value.object row).equals (.object updated)) := rfl
    rw [hupdate, hequal]
    rfl
  have hlive : c.state.store.rows? "t" = some [.object row] := rfl
  have heval : (evalRow (.object row) (.datum (.object patch))).runFrom c =
      (.ok (.object patch), c) := rfl
  have hindex : c.binding.rowIndex = some 0 := rfl
  obtain ⟨next, hrun, hnext⟩ := runFrom_update_bound (by decide) h rfl rfl hindex hlive rfl heval
  refine ⟨h, ?_, next, hrun, hnext "t"⟩
  simp [updated, row]

end Mutation

end TableQuery
