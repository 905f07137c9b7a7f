import Mathlib.Data.List.Forall2
import TableQuery.Proofs.Keeps

namespace TableQuery

section

variable {α β : Type} {f : α → Except Error β} {xs : List α} {ys : List β}

theorem map_eq_ok_iff {g : α → β} {x : Except Error α} {b : β} :
    x.map g = .ok b ↔ ∃ a, x = .ok a ∧ g a = b := by
  cases x with
  | error e => exact iff_of_false nofun nofun
  | ok a => simp [Except.map]

theorem map_eq_error_iff {g : α → β} {x : Except Error α} {e : Error} :
    x.map g = .error e ↔ x = .error e := by
  cases x with
  | error e' => simp [Except.map]
  | ok a => exact iff_of_false nofun nofun

/-- A loop succeeds with one result for each item. -/
theorem mapM_eq_ok_iff : xs.mapM f = .ok ys ↔ List.Forall₂ (fun x y => f x = .ok y) xs ys := by
  induction xs generalizing ys with
  | nil =>
    rw [List.mapM_nil, List.forall₂_nil_left_iff]
    exact ⟨fun h => (Except.ok.inj h).symm, fun h => h ▸ rfl⟩
  | cons x rest ih =>
    rw [List.mapM_cons, List.forall₂_cons_left_iff]
    constructor
    · intro h
      obtain ⟨y, hy, h⟩ := exists_of_bind_ok h
      obtain ⟨others, hothers, h⟩ := exists_of_bind_ok h
      exact ⟨y, others, hy, ih.mp hothers, (Except.ok.inj h).symm⟩
    · rintro ⟨y, others, hy, hothers, rfl⟩
      rw [hy, ih.mpr hothers]
      rfl

theorem exists_of_forall₂ {R : α → β → Prop} (h : List.Forall₂ R xs ys) {x : α} (hx : x ∈ xs) :
    ∃ y, R x y := by
  obtain ⟨i, hi, rfl⟩ := List.mem_iff_getElem.mp hx
  exact ⟨_, h.get hi (h.length_eq ▸ hi)⟩

/-- A loop that fails does so at some item. -/
theorem exists_of_mapM_error {e : Error} (h : xs.mapM f = .error e) : ∃ x ∈ xs, f x = .error e := by
  induction xs with
  | nil => cases h
  | cons x rest ih =>
    rw [List.mapM_cons] at h
    cases hx : f x with
    | error e' =>
      rw [hx] at h
      cases h
      exact ⟨x, List.mem_cons_self, hx⟩
    | ok y =>
      rw [hx] at h
      cases hrest : rest.mapM f with
      | error e' =>
        rw [hrest] at h
        cases h
        obtain ⟨z, hz, hfz⟩ := ih hrest
        exact ⟨z, List.mem_cons_of_mem x hz, hfz⟩
      | ok others =>
        rw [hrest] at h
        cases h

end

variable {σ α β : Type} {s : σ} {xs : List α}

theorem run_mapM {f : α → ExceptT Error (StateM σ) β}
    (h : ∀ x ∈ xs, (StateT.run (ExceptT.run (f x)) s).2 = s) :
    StateT.run (ExceptT.run (xs.mapM f)) s =
      (xs.mapM fun x => (StateT.run (ExceptT.run (f x)) s).1, s) := by
  induction xs with
  | nil => rfl
  | cons x rest ih =>
    have hfirst := h x List.mem_cons_self
    have hrest := ih fun y hy => h y (List.mem_cons_of_mem x hy)
    rw [List.mapM_cons, List.mapM_cons, run_bind]
    rcases hx : StateT.run (ExceptT.run (f x)) s with ⟨_ | y, next⟩
    all_goals
      rw [hx] at hfirst
      obtain rfl : next = s := hfirst
    · rfl
    · dsimp only
      rw [run_bind, hrest]
      rcases rest.mapM fun x => (StateT.run (ExceptT.run (f x)) next).1 with _ | ys <;> rfl

theorem run_mapM_ok {f : α → ExceptT Error (StateM σ) β} {ys : List β}
    (h : List.Forall₂ (fun x y => StateT.run (ExceptT.run (f x)) s = (.ok y, s)) xs ys) :
    StateT.run (ExceptT.run (xs.mapM f)) s = (.ok ys, s) := by
  have hstate : ∀ x ∈ xs, (StateT.run (ExceptT.run (f x)) s).2 = s := by
    intro x hx
    obtain ⟨y, hy⟩ := exists_of_forall₂ h hx
    rw [hy]
  rw [run_mapM hstate, mapM_eq_ok_iff.mpr (h.imp fun x y hxy => congrArg Prod.fst hxy)]

end TableQuery
