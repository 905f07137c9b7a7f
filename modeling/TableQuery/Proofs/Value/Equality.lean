import Mathlib.Data.List.Forall2
import Mathlib.Data.List.Perm.Subperm
import TableQuery.Proofs.Value.Fields
import TableQuery.Value.Order

namespace TableQuery.Value

attribute [local simp] equals equalItems equalFields

theorem equalItems_iff {xs ys : List Value} :
    equalItems xs ys = true ↔ List.Forall₂ (fun x y => equals x y = true) xs ys := by
  induction xs generalizing ys with
  | nil => cases ys <;> simp
  | cons x xs ih => cases ys <;> simp [ih]

theorem equalFields_iff {xs ys : Fields} :
    equalFields xs ys = true ↔
      ∀ pair ∈ xs, ∃ y, Fields.get? pair.1 ys = some y ∧ equals pair.2 y = true := by
  induction xs with
  | nil => simp
  | cons pair rest ih =>
    obtain ⟨k, x⟩ := pair
    cases hk : Fields.get? k ys <;> simp [hk, ih]

theorem equals_object {xs ys : Fields} :
    equals (object xs) (object ys) = true ↔ xs.length = ys.length ∧
      ∀ pair ∈ xs, ∃ y, Fields.get? pair.1 ys = some y ∧ equals pair.2 y = true := by
  simp only [equals, Bool.and_eq_true, beq_iff_eq, equalFields_iff]

theorem scaled_compare_eq {x y : Scaled} : (x.compare y == .eq) = true ↔ x.toInt = y.toInt := by
  simp only [Scaled.compare, beq_iff_eq, Std.LawfulEqOrd.compare_eq_iff_eq]

theorem kind_eq_of_equals {a b : Value} (h : equals a b = true) : a.kind = b.kind := by
  cases a <;> cases b <;> simp_all [kind]

/-- The kinds need not be compared: values of different kinds are never equal. -/
theorem strictEquals_eq_equals (a b : Value) : strictEquals a b = equals a b := by
  unfold strictEquals
  cases h : equals a b with
  | false => simp
  | true => simp [kind_eq_of_equals h]

theorem equals_refl {v : Value} (h : v.distinctKeys = true) : equals v v = true := by
  induction v using Value.induction with
  | array items ih =>
    rw [distinctKeys_array] at h
    rw [equals, equalItems_iff, List.forall₂_same]
    exact fun item hitem => ih item hitem (h item hitem)
  | object fields ih =>
    rw [distinctKeys_object] at h
    refine equals_object.mpr ⟨rfl, fun pair hpair => ⟨pair.2, ?_, ih pair hpair (h.2 pair hpair)⟩⟩
    exact Fields.get?_of_mem h.1 hpair
  | number n => exact scaled_compare_eq.mpr rfl
  | _ => simp

theorem equals_trans {a b c : Value} (hab : equals a b = true) (hbc : equals b c = true) :
    equals a c = true := by
  induction a using Value.induction generalizing b c with
  | array xs ih =>
    cases b <;> try simp at hab
    cases c <;> try simp at hbc
    next ys zs =>
    rw [equalItems_iff] at hab hbc
    rw [equals, equalItems_iff]
    induction hab generalizing zs with
    | nil => exact hbc
    | @cons x y xs ys hxy _ ihrest =>
      cases hbc with
      | cons hyz hrest =>
        refine .cons (ih x List.mem_cons_self hxy hyz) ?_
        exact ihrest (fun item hitem => ih item (List.mem_cons_of_mem _ hitem)) _ hrest
  | object xs ih =>
    cases b <;> try simp at hab
    cases c <;> try simp at hbc
    next ys zs =>
    have hxy := equals_object.mp (by simpa using hab)
    have hyz := equals_object.mp (by simpa using hbc)
    refine equals_object.mpr ⟨hxy.1.trans hyz.1, fun pair hpair => ?_⟩
    obtain ⟨y, hy, hequal⟩ := hxy.2 pair hpair
    obtain ⟨z, hz, hnext⟩ := hyz.2 (pair.1, y) (Fields.mem_of_get? hy)
    exact ⟨z, hz, ih pair hpair hequal hnext⟩
  | number n =>
    cases b <;> try simp at hab
    cases c <;> try simp at hbc
    have hfirst := scaled_compare_eq.mp (by simpa using hab)
    have hsecond := scaled_compare_eq.mp (by simpa using hbc)
    exact scaled_compare_eq.mpr (hfirst.trans hsecond)
  | _ =>
    cases b <;> try simp at hab
    all_goals cases c <;> simp_all

/-- Objects of one size: if one names only what the other names, it names all of it. -/
theorem keys_subset_of_length {xs ys : Fields} (hx : (Fields.keys xs).Nodup)
    (hlength : xs.length = ys.length) (hsub : Fields.keys xs ⊆ Fields.keys ys) :
    Fields.keys ys ⊆ Fields.keys xs := by
  have hle : (Fields.keys ys).length ≤ (Fields.keys xs).length := by
    simp only [Fields.keys, List.length_map]
    omega
  exact ((hx.subperm hsub).perm_of_length_le hle).symm.subset

theorem equals_symm {a b : Value} (ha : a.distinctKeys = true) (hb : b.distinctKeys = true)
    (h : equals a b = true) : equals b a = true := by
  induction a using Value.induction generalizing b with
  | array xs ih =>
    cases b <;> try simp at h
    next ys =>
    rw [distinctKeys_array] at ha hb
    rw [equalItems_iff] at h
    rw [equals, equalItems_iff]
    induction h with
    | nil => exact .nil
    | @cons x y xs ys hxy _ ihrest =>
      simp only [List.forall_mem_cons] at ih ha hb
      exact .cons (ih.1 ha.1 hb.1 hxy) (ihrest ih.2 ha.2 hb.2)
  | object xs ih =>
    cases b <;> try simp at h
    next ys =>
    have hxy := equals_object.mp (by simpa using h)
    rw [distinctKeys_object] at ha hb
    -- as many different names on both sides, so the names of the one are those of the other
    have hsub : Fields.keys xs ⊆ Fields.keys ys := by
      intro name hname
      obtain ⟨x, hx⟩ := Fields.exists_get? hname
      obtain ⟨y, hy, -⟩ := hxy.2 _ (Fields.mem_of_get? hx)
      exact Fields.get?_isSome_iff.mp (by simp [hy])
    refine equals_object.mpr ⟨hxy.1.symm, fun pair hpair => ?_⟩
    have hname := keys_subset_of_length ha.1 hxy.1 hsub (List.mem_map_of_mem hpair)
    obtain ⟨x, hx⟩ := Fields.exists_get? hname
    have hmem := Fields.mem_of_get? hx
    obtain ⟨y, hy, hequal⟩ := hxy.2 _ hmem
    have hsame : y = pair.2 :=
      Option.some.inj (hy.symm.trans (Fields.get?_of_mem hb.1 hpair))
    rw [hsame] at hequal
    exact ⟨x, hx, ih _ hmem (ha.2 _ hmem) (hb.2 pair hpair) hequal⟩
  | number n =>
    cases b <;> try simp at h
    exact scaled_compare_eq.mpr (scaled_compare_eq.mp (by simpa using h)).symm
  | _ => cases b <;> simp_all

theorem equals_comm {a b : Value} (ha : a.distinctKeys = true) (hb : b.distinctKeys = true) :
    equals a b = equals b a :=
  Bool.eq_iff_iff.mpr ⟨equals_symm ha hb, equals_symm hb ha⟩

/-- Two objects are equal if they name the same and have equal values under each name. -/
theorem equals_object_of_get? {xs ys : Fields} (hx : (Fields.keys xs).Nodup)
    (hy : (Fields.keys ys).Nodup) (hnames : ∀ name ∈ Fields.keys ys, name ∈ Fields.keys xs)
    (h : ∀ name x, Fields.get? name xs = some x →
      ∃ y, Fields.get? name ys = some y ∧ equals x y = true) :
    equals (object xs) (object ys) = true := by
  have hsub : Fields.keys xs ⊆ Fields.keys ys := by
    intro name hname
    obtain ⟨x, hx⟩ := Fields.exists_get? hname
    obtain ⟨y, hy, -⟩ := h name x hx
    exact Fields.get?_isSome_iff.mp (by simp [hy])
  have hlength := ((hx.subperm hsub).antisymm (hy.subperm hnames)).length_eq
  simp only [Fields.keys, List.length_map] at hlength
  exact equals_object.mpr ⟨hlength, fun pair hpair => h _ _ (Fields.get?_of_mem hx hpair)⟩

/-- A value stays equal to itself when an equal value is merged into it. -/
theorem equals_mergeValue {old new : Value} (hold : old.distinctKeys = true)
    (hnew : new.distinctKeys = true) (h : equals old new = true) :
    equals old (Fields.mergeValue (some old) new) = true := by
  induction new using Value.induction generalizing old with
  | object incoming ih =>
    cases old <;> try simp at h
    next existing =>
    have hboth := equals_object.mp (by simpa using h)
    rw [distinctKeys_object] at hold hnew
    rw [Fields.mergeValue]
    refine equals_object_of_get? hold.1 (Fields.nodup_merge hold.1 _) ?_ ?_
    · intro name hname
      obtain ⟨v, hv⟩ := Fields.exists_get? hname
      rw [Fields.get?_merge name existing hnew.1] at hv
      split at hv
      · next w hw =>
        have hsub : Fields.keys existing ⊆ Fields.keys incoming := by
          intro k hk
          obtain ⟨x, hx⟩ := Fields.exists_get? hk
          obtain ⟨y, hy, -⟩ := hboth.2 _ (Fields.mem_of_get? hx)
          exact Fields.get?_isSome_iff.mp (by simp [hy])
        exact keys_subset_of_length hold.1 hboth.1 hsub (Fields.get?_isSome_iff.mp (by simp [hw]))
      · exact Fields.get?_isSome_iff.mp (by simp [hv])
    · intro name x hx
      have hmem := Fields.mem_of_get? hx
      obtain ⟨y, hy, hequal⟩ := hboth.2 _ hmem
      have hin := Fields.mem_of_get? hy
      refine ⟨Fields.mergeValue (some x) y, ?_, ?_⟩
      · simp only [Fields.get?_merge name existing hnew.1, hy, hx]
      · exact ih _ hin (hold.2 _ hmem) (hnew.2 _ hin) hequal
  | _ => simpa [Fields.mergeValue] using h

end TableQuery.Value
