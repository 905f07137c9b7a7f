import TableQuery.Proofs.Value.Equality

namespace TableQuery

/-- The ends of a chain of two steps up compare like the first step that is no tie. -/
theorem ord_then {α : Type} [Ord α] [Std.TransOrd α] {x y z : α} (hxy : compare x y ≠ .gt)
    (hyz : compare y z ≠ .gt) : compare x z = (compare x y).then (compare y z) := by
  cases hfirst : compare x y with
  | lt => exact Std.TransCmp.lt_of_lt_of_isLE hfirst (Ordering.isLE_iff_ne_gt.mpr hyz)
  | eq => exact Std.TransCmp.congr_left hfirst
  | gt => exact absurd hfirst hxy

namespace Value

variable {a b c : Value} {xs ys zs : List Value}

/-- Values of different kinds are compared by their kinds. -/
theorem compare_of_kind_ne (h : a.kind ≠ b.kind) :
    a.compare b = Ord.compare a.kind.rank b.kind.rank := by
  cases a <;> cases b <;> first | rfl | exact absurd rfl h

theorem compare_of_rank_lt (h : a.kind.rank < b.kind.rank) : a.compare b = .lt := by
  have hkind : a.kind ≠ b.kind := by
    intro heq
    rw [heq] at h
    exact Nat.lt_irrefl _ h
  rw [compare_of_kind_ne hkind]
  exact Nat.compare_eq_lt.mpr h

/-- A step up leads to a kind that is the same or comes later. -/
theorem kind_eq_or_rank_lt (h : a.compare b ≠ .gt) :
    a.kind = b.kind ∨ a.kind.rank < b.kind.rank := by
  by_cases hkind : a.kind = b.kind
  · exact .inl hkind
  · right
    rw [compare_of_kind_ne hkind] at h
    apply Nat.lt_of_le_of_ne (Nat.compare_ne_gt.mp h)
    -- no two kinds have the same rank
    intro hrank
    apply hkind
    revert hrank
    cases a.kind <;> cases b.kind <;> decide

theorem compareItems_swap (h : ∀ x ∈ xs, ∀ y : Value, y.compare x = (x.compare y).swap) :
    compareItems ys xs = (compareItems xs ys).swap := by
  induction xs generalizing ys with
  | nil => cases ys <;> rfl
  | cons x xs ih =>
    cases ys with
    | nil => rfl
    | cons y ys =>
      rw [List.forall_mem_cons] at h
      rw [compareItems, compareItems, h.1, ih h.2, Ordering.swap_then]

theorem compare_swap (a b : Value) : b.compare a = (a.compare b).swap := by
  induction a using Value.induction generalizing b with
  | null => cases b <;> rfl
  | object fields => cases b <;> rfl
  | bool x =>
    cases b with
    | bool y =>
      show Ord.compare y x = (Ord.compare x y).swap
      exact Std.OrientedCmp.eq_swap
    | _ => rfl
  | number m =>
    cases b with
    | number n =>
      show Ord.compare n.toScaled.toInt m.toScaled.toInt =
        (Ord.compare m.toScaled.toInt n.toScaled.toInt).swap
      exact Std.OrientedCmp.eq_swap
    | _ => rfl
  | string s =>
    cases b with
    | string t =>
      show Ord.compare t s = (Ord.compare s t).swap
      exact Std.OrientedCmp.eq_swap
    | _ => rfl
  | array xs ih =>
    cases b with
    | array ys => exact compareItems_swap ih
    | _ => rfl

/-- A chain of two steps up that changes the kind. -/
theorem compare_then_of_kind_ne (h : ¬(a.kind = b.kind ∧ b.kind = c.kind))
    (hab : a.compare b ≠ .gt) (hbc : b.compare c ≠ .gt) :
    a.compare c = (a.compare b).then (b.compare c) := by
  rcases kind_eq_or_rank_lt hab with hfirst | hfirst
  · rcases kind_eq_or_rank_lt hbc with hsecond | hsecond
    · exact absurd ⟨hfirst, hsecond⟩ h
    · -- the kind changes in the second step
      rw [compare_of_rank_lt hsecond, compare_of_rank_lt (hfirst ▸ hsecond)]
      cases hstep : a.compare b with
      | lt => rfl
      | eq => rfl
      | gt => exact absurd hstep hab
  · have hrank : a.kind.rank < c.kind.rank := by
      rcases kind_eq_or_rank_lt hbc with hsecond | hsecond
      · exact hsecond ▸ hfirst
      · exact Nat.lt_trans hfirst hsecond
    rw [compare_of_rank_lt hfirst, compare_of_rank_lt hrank, Ordering.lt_then]

theorem ne_gt_of_then {o p : Ordering} (h : o.then p ≠ .gt) : o ≠ .gt := by
  rintro rfl
  exact h rfl

/-- Lists of items are compared at the first place where they differ. -/
theorem compareItems_then
    (h : ∀ x ∈ xs, ∀ {y z : Value}, x.compare y ≠ .gt → y.compare z ≠ .gt →
      x.compare z = (x.compare y).then (y.compare z))
    (hxy : compareItems xs ys ≠ .gt) (hyz : compareItems ys zs ≠ .gt) :
    compareItems xs zs = (compareItems xs ys).then (compareItems ys zs) := by
  induction xs generalizing ys zs with
  | nil =>
    cases ys <;> cases zs <;> first | rfl | exact absurd rfl hyz
  | cons x xs ih =>
    cases ys with
    | nil => exact absurd rfl hxy
    | cons y ys =>
      cases zs with
      | nil => exact absurd rfl hyz
      | cons z zs =>
        rw [List.forall_mem_cons] at h
        rw [compareItems] at hxy hyz
        have hfirst := ne_gt_of_then hxy
        have hsecond := ne_gt_of_then hyz
        rw [compareItems, compareItems, compareItems, h.1 hfirst hsecond]
        cases hhead : x.compare y with
        | gt => exact absurd hhead hfirst
        | lt => rfl
        | eq =>
          rw [hhead, Ordering.eq_then] at hxy
          cases hnext : y.compare z with
          | gt => exact absurd hnext hsecond
          | lt =>
            -- the last list is already ahead, so the rest of the first step must not step down
            cases hrest : compareItems xs ys with
            | lt => rfl
            | eq => rfl
            | gt => exact absurd hrest hxy
          | eq =>
            rw [hnext, Ordering.eq_then] at hyz
            exact ih h.2 hxy hyz

/-- The ends of a chain of two steps up compare like the first step that is no tie. -/
theorem compare_then (hab : a.compare b ≠ .gt) (hbc : b.compare c ≠ .gt) :
    a.compare c = (a.compare b).then (b.compare c) := by
  by_cases hkinds : a.kind = b.kind ∧ b.kind = c.kind
  swap
  · exact compare_then_of_kind_ne hkinds hab hbc
  obtain ⟨hfirst, hsecond⟩ := hkinds
  induction a using Value.induction generalizing b c with
  | array xs ih =>
    cases b <;> try cases hfirst
    cases c <;> try cases hsecond
    next ys zs =>
    apply compareItems_then ?_ hab hbc
    -- the items may be of any kinds again
    intro x hx y z hxy hyz
    by_cases hkinds : x.kind = y.kind ∧ y.kind = z.kind
    · exact ih x hx hxy hyz hkinds.1 hkinds.2
    · exact compare_then_of_kind_ne hkinds hxy hyz
  | bool x =>
    cases b <;> try cases hfirst
    cases c <;> try cases hsecond
    exact ord_then hab hbc
  | number n =>
    cases b <;> try cases hfirst
    cases c <;> try cases hsecond
    exact ord_then hab hbc
  | string s =>
    cases b <;> try cases hfirst
    cases c <;> try cases hsecond
    exact ord_then hab hbc
  | null =>
    cases b <;> try cases hfirst
    cases c <;> try cases hsecond
    rfl
  | object fields =>
    cases b <;> try cases hfirst
    cases c <;> try cases hsecond
    rfl

instance : Std.TransCmp Value.compare where
  eq_swap := compare_swap _ _
  isLE_trans {a b c} hab hbc := by
    have hab : a.compare b ≠ .gt := Ordering.isLE_iff_ne_gt.mp hab
    have hbc : b.compare c ≠ .gt := Ordering.isLE_iff_ne_gt.mp hbc
    rw [Ordering.isLE_iff_ne_gt, compare_then hab hbc]
    cases hfirst : a.compare b with
    | lt => exact Ordering.noConfusion
    | eq => exact hbc
    | gt => exact absurd hfirst hab

theorem compareItems_eq_iff : compareItems xs ys = .eq ↔
    List.Forall₂ (fun x y : Value => x.compare y = .eq) xs ys := by
  induction xs generalizing ys with
  | nil => cases ys <;> simp [compareItems]
  | cons x xs ih =>
    cases ys with
    | nil => simp [compareItems]
    | cons y ys => rw [compareItems, Ordering.then_eq_eq, ih, List.forall₂_cons]

/-- Equal values are tied. -/
theorem compare_eq_of_equals (h : a.equals b = true) : a.compare b = .eq := by
  have hkind := kind_eq_of_equals h
  induction a using Value.induction generalizing b with
  | array xs ih =>
    cases b <;> try cases hkind
    next ys =>
    rw [equals, equalItems_iff] at h
    rw [compare, compareItems_eq_iff]
    exact forall₂_imp h fun x hx y hxy => ih x hx hxy (kind_eq_of_equals hxy)
  | number n =>
    cases b <;> try cases hkind
    exact beq_iff_eq.mp h
  | bool x =>
    cases b <;> try cases hkind
    exact Std.LawfulEqOrd.compare_eq_iff_eq.mpr (beq_iff_eq.mp h)
  | string s =>
    cases b <;> try cases hkind
    exact Std.LawfulEqOrd.compare_eq_iff_eq.mpr (beq_iff_eq.mp h)
  | null =>
    cases b <;> try cases hkind
    rfl
  | object fields =>
    cases b <;> try cases hkind
    rfl

/-- The order of values is total and transitive, and values that are equal stand at one place in
it. -/
theorem compare_preorder (a b c : Value) :
    b.compare a = (a.compare b).swap ∧
      (a.compare b ≠ .gt → b.compare c ≠ .gt →
        a.compare c ≠ .gt ∧ (a.compare b = .lt ∨ b.compare c = .lt → a.compare c = .lt)) ∧
      (a.equals b = true → a.compare c = b.compare c) := by
  refine ⟨compare_swap a b, ?_, ?_⟩
  · intro hab hbc
    refine ⟨Ordering.isLE_iff_ne_gt.mp (Std.TransCmp.isLE_trans
      (Ordering.isLE_iff_ne_gt.mpr hab) (Ordering.isLE_iff_ne_gt.mpr hbc)), ?_⟩
    rintro (hless | hless)
    · rw [compare_then hab hbc, hless, Ordering.lt_then]
    · exact Std.TransCmp.lt_of_isLE_of_lt (Ordering.isLE_iff_ne_gt.mpr hab) hless
  · intro hequal
    exact Std.TransCmp.congr_left (compare_eq_of_equals hequal)

/-- Arrays that hold objects, which are tied, and values of other kinds. -/
theorem compare_preorder_nested :
    let a : Value := array [null, object [("n", bool true)]]
    let b : Value := array [null, object []]
    let c : Value := array [string ""]
    a.compare b ≠ .gt ∧ b.compare c ≠ .gt ∧ a.compare c = .lt := by
  intro a b c
  have hab : a.compare b ≠ .gt := by decide
  have hbc : b.compare c ≠ .gt := by decide
  exact ⟨hab, hbc, ((compare_preorder a b c).2.1 hab hbc).2 (.inr rfl)⟩

end Value

end TableQuery
