import TableQuery.Action.Catalogue
import TableQuery.Proofs.Value.Comparison

namespace TableQuery

namespace Value

mutual
def outline : Value → Value
  | array items => array (outlines items)
  | object _ => object []
  | v => v

def outlines : List Value → List Value
  | [] => []
  | item :: rest => outline item :: outlines rest
end

mutual
def objectFree : Value → Bool
  | array items => allObjectFree items
  | object _ => false
  | _ => true

def allObjectFree : List Value → Bool
  | [] => true
  | item :: rest => objectFree item && allObjectFree rest
end

variable {a b : Value}

theorem outlines_eq (items : List Value) : outlines items = items.map outline := by
  induction items with
  | nil => rfl
  | cons item rest ih => rw [outlines, ih, List.map_cons]

theorem allObjectFree_iff {items : List Value} :
    allObjectFree items = true ↔ ∀ item ∈ items, item.objectFree = true := by
  induction items with
  | nil => simp [allObjectFree]
  | cons item rest ih => rw [allObjectFree, Bool.and_eq_true, ih, List.forall_mem_cons]

theorem equals_outline_array {xs ys : List Value} :
    (array xs).outline.equals (array ys).outline = true ↔
      List.Forall₂ (fun x y : Value => x.outline.equals y.outline = true) xs ys := by
  rw [outline, outline, outlines_eq, outlines_eq, equals, equalItems_iff,
    List.forall₂_map_left_iff, List.forall₂_map_right_iff]

theorem kind_outline (v : Value) : v.outline.kind = v.kind := by
  cases v <;> rfl

theorem compare_eq_iff_of_kind_ne (h : a.kind ≠ b.kind) :
    a.compare b = .eq ↔ a.outline.equals b.outline = true := by
  apply iff_of_false
  · intro htied
    have hup : a.compare b ≠ .gt := by
      rw [htied]
      decide
    rcases kind_eq_or_rank_lt hup with hkind | hrank
    · exact h hkind
    · cases htied.symm.trans (compare_of_rank_lt hrank)
  · intro hequal
    have hkind := kind_eq_of_equals hequal
    rw [kind_outline, kind_outline] at hkind
    exact h hkind

/-- Values are tied exactly if their outlines are equal. -/
theorem compare_eq_iff : a.compare b = .eq ↔ a.outline.equals b.outline = true := by
  -- values of different kinds are neither tied nor equal in outline
  induction a using Value.induction generalizing b with
  | array xs ih =>
    cases b with
    | array ys =>
      rw [compare, compareItems_eq_iff, equals_outline_array]
      constructor
      · exact fun h => forall₂_imp h fun x hx y hxy => (ih x hx).mp hxy
      · exact fun h => forall₂_imp h fun x hx y hxy => (ih x hx).mpr hxy
    | _ => exact compare_eq_iff_of_kind_ne (by rintro ⟨⟩)
  | number n =>
    cases b with
    | number m => exact beq_iff_eq.symm
    | _ => exact compare_eq_iff_of_kind_ne (by rintro ⟨⟩)
  | bool x =>
    cases b with
    | bool y => exact Std.LawfulEqOrd.compare_eq_iff_eq.trans beq_iff_eq.symm
    | _ => exact compare_eq_iff_of_kind_ne (by rintro ⟨⟩)
  | string s =>
    cases b with
    | string t => exact Std.LawfulEqOrd.compare_eq_iff_eq.trans beq_iff_eq.symm
    | _ => exact compare_eq_iff_of_kind_ne (by rintro ⟨⟩)
  | null =>
    cases b with
    | null => exact ⟨fun _ => rfl, fun _ => rfl⟩
    | _ => exact compare_eq_iff_of_kind_ne (by rintro ⟨⟩)
  | object fields =>
    cases b with
    | object others => exact ⟨fun _ => rfl, fun _ => rfl⟩
    | _ => exact compare_eq_iff_of_kind_ne (by rintro ⟨⟩)

/-- Without objects in one of them, values with equal outlines are equal. -/
theorem equals_of_outline (hfree : a.objectFree = true ∨ b.objectFree = true)
    (h : a.outline.equals b.outline = true) : a.equals b = true := by
  have hkind := kind_eq_of_equals h
  induction a using Value.induction generalizing b with
  | array xs ih =>
    cases b <;> try cases hkind
    next ys =>
    rw [equals_outline_array] at h
    rw [equals, equalItems_iff]
    rw [List.forall₂_iff_zip] at h ⊢
    refine ⟨h.1, fun {x y} hxy => ?_⟩
    obtain ⟨hx, hy⟩ := List.of_mem_zip hxy
    have hitems := hfree.imp (fun h => allObjectFree_iff.mp h x hx)
      (fun h => allObjectFree_iff.mp h y hy)
    exact ih x hx hitems (h.2 hxy) (kind_eq_of_equals (h.2 hxy))
  | object fields =>
    cases b <;> try cases hkind
    rcases hfree with hfree | hfree <;> cases hfree
  | _ =>
    cases b <;> try cases hkind
    exact h

end Value

namespace Comparison

def answer (action : String) (a b : Value) : Act Value :=
  Registry.builtin.invoke action a [.datum b]

variable (a b : Value) (c : Context)

theorem runFrom_lt : (answer "lt" a b).runFrom c = (.ok (.bool (a.compare b == .lt)), c) := by
  have hchain : chain (· == .lt) a [b] = (a.compare b == .lt) := Bool.and_true _
  rw [← hchain]
  rfl

theorem runFrom_gt : (answer "gt" a b).runFrom c = (.ok (.bool (a.compare b == .gt)), c) := by
  have hchain : chain (· == .gt) a [b] = (a.compare b == .gt) := Bool.and_true _
  rw [← hchain]
  rfl

theorem runFrom_eq : (answer "eq" a b).runFrom c = (.ok (.bool (a.equals b)), c) := by
  have hall : allEqual a [b] = a.equals b := Bool.and_true _
  rw [← hall]
  rfl

/-- One of the three holds, unless the values are tied and not equal: then none does. -/
theorem count_answers : [a.compare b == .lt, a.equals b, a.compare b == .gt].count true =
    if a.compare b = .eq ∧ a.equals b = false then 0 else 1 := by
  have hequal : a.equals b = true → a.compare b = .eq := Value.compare_eq_of_equals
  cases hcompare : a.compare b <;> cases h : a.equals b <;> simp_all

/-- Exactly one of the three answers is "true" if and only if "tied" and "equal" are the same for
the two values, which is so unless they differ inside objects only. In no case are two of the
answers "true". -/
theorem trichotomy_iff : ∃ less equal greater : Bool,
    (answer "lt" a b).runFrom c = (.ok (.bool less), c) ∧
      (answer "eq" a b).runFrom c = (.ok (.bool equal), c) ∧
      (answer "gt" a b).runFrom c = (.ok (.bool greater), c) ∧
      ([less, equal, greater].count true = 1 ↔ (a.compare b = .eq ↔ a.equals b = true)) ∧
      ((a.compare b = .eq ↔ a.equals b = true) ↔
        (a.outline.equals b.outline = true → a.equals b = true)) ∧
      (a.objectFree = true ∨ b.objectFree = true → [less, equal, greater].count true = 1) ∧
      [less, equal, greater].count true ≤ 1 := by
  have hequal : a.equals b = true → a.compare b = .eq := Value.compare_eq_of_equals
  have hone : [a.compare b == .lt, a.equals b, a.compare b == .gt].count true = 1 ↔
      (a.compare b = .eq ↔ a.equals b = true) := by
    rw [count_answers]
    split
    · next h => simp [h.1, h.2]
    · next h => exact iff_of_true rfl ⟨fun htied => by simpa [htied] using h, hequal⟩
  have htied : (a.compare b = .eq ↔ a.equals b = true) ↔
      (a.outline.equals b.outline = true → a.equals b = true) := by
    rw [← Value.compare_eq_iff]
    exact ⟨fun h => h.mp, fun h => ⟨h, hequal⟩⟩
  refine ⟨_, _, _, runFrom_lt a b c, runFrom_eq a b c, runFrom_gt a b c, hone, htied, ?_, ?_⟩
  · intro hfree
    exact hone.mpr (htied.mpr (Value.equals_of_outline hfree))
  · rw [count_answers]
    split <;> decide

/-- Two objects with different fields: none of the three answers is "true". -/
theorem not_trichotomy_objects :
    let a : Value := .object [("id", .number (.int 1))]
    let b : Value := .object [("id", .number (.int 2))]
    a.compare b = .eq ∧ a.equals b = false ∧ ∀ c : Context,
      (answer "lt" a b).runFrom c = (.ok (.bool false), c) ∧
        (answer "eq" a b).runFrom c = (.ok (.bool false), c) ∧
        (answer "gt" a b).runFrom c = (.ok (.bool false), c) := by
  intro a b
  have hcompare : a.compare b = .eq := rfl
  have hequals : a.equals b = false := by decide +kernel
  refine ⟨hcompare, hequals, fun c => ⟨?_, ?_, ?_⟩⟩
  · rw [runFrom_lt, hcompare]
    rfl
  · rw [runFrom_eq, hequals]
  · rw [runFrom_gt, hcompare]
    rfl

end Comparison

end TableQuery
