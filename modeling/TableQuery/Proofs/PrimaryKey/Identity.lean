import TableQuery.Proofs.Value.Equality

namespace TableQuery

variable {a b c : Value}

theorem sameRow_of_id {x y : Value} (ha : a.id? = some x) (hb : b.id? = some y) :
    a.sameRow b = x.equals y := by
  unfold Value.sameRow
  rw [ha, hb]
  exact Value.strictEquals_eq_equals x y

namespace Value

theorem sameRow_of_id_eq_none (h : a.id? = none ∨ b.id? = none) : a.sameRow b = a.equals b := by
  unfold sameRow
  rcases h with ha | hb
  · rw [ha]
  · rw [hb]
    cases a.id? <;> rfl

theorem sameRow_self (h : a.Distinct) : a.sameRow a = true := by
  cases hid : a.id? with
  | none =>
    rw [sameRow_of_id_eq_none (.inl hid)]
    exact equals_refl h
  | some x =>
    rw [sameRow_of_id hid hid]
    exact equals_refl (hereditary_distinct.field? h hid)

theorem sameRow_symm (ha : a.Distinct) (hb : b.Distinct) (h : a.sameRow b = true) :
    b.sameRow a = true := by
  by_cases hnone : a.id? = none ∨ b.id? = none
  · rw [sameRow_of_id_eq_none hnone] at h
    rw [sameRow_of_id_eq_none hnone.symm]
    exact equals_symm ha hb h
  · rw [not_or] at hnone
    obtain ⟨x, hx⟩ := Option.ne_none_iff_exists'.mp hnone.1
    obtain ⟨y, hy⟩ := Option.ne_none_iff_exists'.mp hnone.2
    rw [sameRow_of_id hx hy] at h
    rw [sameRow_of_id hy hx]
    apply equals_symm _ _ h
    · exact hereditary_distinct.field? ha hx
    · exact hereditary_distinct.field? hb hy

/-- An equal value has an equal key. -/
theorem exists_id_of_equals {x : Value} (h : a.equals b = true) (hx : a.id? = some x) :
    ∃ y, b.id? = some y ∧ x.equals y = true := by
  cases a <;> try cases hx
  cases b <;> try simp [equals] at h
  next xs ys =>
  have hfields := (equals_object.mp (by simpa [equals] using h)).2
  exact hfields _ (Fields.mem_of_get? hx)

theorem isSome_id_of_equals (ha : a.Distinct) (hb : b.Distinct) (h : a.equals b = true) :
    a.id?.isSome = b.id?.isSome := by
  have hkept {a b : Value} (h : a.equals b = true) (hid : a.id?.isSome = true) :
      b.id?.isSome = true := by
    obtain ⟨x, hx⟩ := Option.isSome_iff_exists.mp hid
    obtain ⟨y, hy, -⟩ := exists_id_of_equals h hx
    rw [hy, Option.isSome_some]
  apply Bool.eq_iff_iff.mpr
  exact ⟨hkept h, hkept (equals_symm ha hb h)⟩

/-- No row with a key is the same as one without. -/
theorem isSome_id_of_sameRow (ha : a.Distinct) (hb : b.Distinct) (h : a.sameRow b = true) :
    a.id?.isSome = b.id?.isSome := by
  by_cases hnone : a.id? = none ∨ b.id? = none
  · rw [sameRow_of_id_eq_none hnone] at h
    exact isSome_id_of_equals ha hb h
  · rw [not_or] at hnone
    rw [Option.isSome_iff_ne_none.mpr hnone.1, Option.isSome_iff_ne_none.mpr hnone.2]

theorem sameRow_trans (ha : a.Distinct) (hb : b.Distinct) (hc : c.Distinct)
    (hab : a.sameRow b = true) (hbc : b.sameRow c = true) : a.sameRow c = true := by
  have hfirst := isSome_id_of_sameRow ha hb hab
  have hsecond := isSome_id_of_sameRow hb hc hbc
  cases hy : b.id? with
  | none =>
    -- none of the three has a key
    rw [hy, Option.isSome_none] at hfirst hsecond
    have hx := Option.isSome_eq_false_iff.mp hfirst
    rw [sameRow_of_id_eq_none (.inr hy)] at hab
    rw [sameRow_of_id_eq_none (.inl hy)] at hbc
    rw [sameRow_of_id_eq_none (.inl (Option.isNone_iff_eq_none.mp hx))]
    exact equals_trans hab hbc
  | some y =>
    -- all three have one
    rw [hy, Option.isSome_some] at hfirst hsecond
    obtain ⟨x, hx⟩ := Option.isSome_iff_exists.mp hfirst
    obtain ⟨z, hz⟩ := Option.isSome_iff_exists.mp hsecond.symm
    rw [sameRow_of_id hx hy] at hab
    rw [sameRow_of_id hy hz] at hbc
    rw [sameRow_of_id hx hz]
    exact equals_trans hab hbc

/-- On values whose objects have different names, equality and identity of rows are equivalences.
Strict equality is the same as equality, on all values. -/
theorem equals_sameRow_equivalence :
    Equivalence (fun a b : {v : Value // v.Distinct} => a.val.equals b.val = true) ∧
      (∀ a b : Value, a.strictEquals b = a.equals b) ∧
      Equivalence fun a b : {v : Value // v.Distinct} => a.val.sameRow b.val = true := by
  refine ⟨⟨?_, ?_, ?_⟩, strictEquals_eq_equals, ⟨?_, ?_, ?_⟩⟩
  · exact fun a => equals_refl a.property
  · exact fun {a b} h => equals_symm a.property b.property h
  · exact fun hab hbc => equals_trans hab hbc
  · exact fun a => sameRow_self a.property
  · exact fun {a b} h => sameRow_symm a.property b.property h
  · exact fun {a b c} hab hbc => sameRow_trans a.property b.property c.property hab hbc

end Value

end TableQuery
