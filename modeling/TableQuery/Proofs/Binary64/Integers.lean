import Mathlib.Algebra.Group.Nat.Defs
import TableQuery.Action.Access

namespace TableQuery

theorem exists_unitsPerOne : ∃ e, unitsPerOne = 2 ^ e := by
  unfold unitsPerOne
  generalize 1074 = e
  exact ⟨e, Nat.pow_eq⟩

theorem unitsPerOne_pos : 0 < unitsPerOne := by
  obtain ⟨e, he⟩ := exists_unitsPerOne
  rw [he]
  exact Nat.two_pow_pos e

theorem le_roundDiv (num den : Nat) : num / den ≤ roundDiv num den := by
  unfold roundDiv
  dsimp only
  split
  · exact Nat.le_succ _
  · exact Nat.le_refl _

/-- A quotient without a remainder is not rounded. -/
theorem roundDiv_of_dvd {num den : Nat} (h : den ∣ num) : roundDiv num den = num / den := by
  have hrest : num % den = 0 := Nat.mod_eq_zero_of_dvd h
  unfold roundDiv
  dsimp only
  rw [hrest, if_neg]
  rintro (hlt | ⟨hzero, hodd⟩)
  · omega
  · -- a half of nothing: the divisor is zero, and so is the quotient
    obtain rfl : den = 0 := by omega
    simp at hodd

def spacing (num : Nat) : Nat := 2 ^ (num.log2 - 52)

theorem roundUnits_mul (num : Nat) {den : Nat} (hden : 0 < den) :
    roundUnits (num * den) den = roundDiv (num * den) (den * spacing num) * spacing num := by
  unfold roundUnits spacing
  dsimp only
  rw [Nat.mul_div_cancel num hden, Nat.pow_eq]

theorem roundUnits_one (num : Nat) :
    roundUnits num 1 = roundDiv num (spacing num) * spacing num := by
  simpa only [Nat.mul_one, Nat.one_mul] using roundUnits_mul num Nat.one_pos

/-- A fraction that comes to a multiple of the spacing is not rounded. -/
theorem roundUnits_of_dvd {num den : Nat} (hden : 0 < den) (h : spacing num ∣ num) :
    roundUnits (num * den) den = num := by
  have hdvd : den * spacing num ∣ num * den := by
    rw [Nat.mul_comm num]
    exact Nat.mul_dvd_mul_left den h
  calc roundUnits (num * den) den
      = num * den / (den * spacing num) * spacing num := by
        rw [roundUnits_mul num hden, roundDiv_of_dvd hdvd]
    _ = num / spacing num * spacing num := by
        rw [Nat.mul_comm num, Nat.mul_div_mul_left _ _ hden]
    _ = num := Nat.div_mul_cancel h

/-- Rounding does not fall below the power of two that a number begins with. -/
theorem two_pow_log2_le_roundUnits {num : Nat} (h : num ≠ 0) :
    2 ^ num.log2 ≤ roundUnits num 1 := by
  have hspacing : spacing num ∣ 2 ^ num.log2 := Nat.pow_dvd_pow 2 (Nat.sub_le _ _)
  have hnum : 2 ^ num.log2 ≤ num := (Nat.le_log2 h).mp (Nat.le_refl _)
  calc 2 ^ num.log2
      = 2 ^ num.log2 / spacing num * spacing num := (Nat.div_mul_cancel hspacing).symm
    _ ≤ num / spacing num * spacing num := Nat.mul_le_mul_right _ (Nat.div_le_div_right hnum)
    _ ≤ roundDiv num (spacing num) * spacing num := Nat.mul_le_mul_right _ (le_roundDiv _ _)
    _ = roundUnits num 1 := (roundUnits_one num).symm

theorem log2_mul_two_pow {m : Nat} (hm : m ≠ 0) (e : Nat) : (m * 2 ^ e).log2 = m.log2 + e := by
  have hlow : 2 ^ m.log2 ≤ m := (Nat.le_log2 hm).mp (Nat.le_refl _)
  have hhigh : m < 2 ^ (m.log2 + 1) := (Nat.log2_lt hm).mp (Nat.lt_succ_self _)
  have hpos : 0 < 2 ^ e := Nat.two_pow_pos e
  rw [Nat.log2_eq_iff (Nat.mul_ne_zero hm (Nat.ne_of_gt hpos))]
  constructor
  · rw [Nat.pow_add]
    exact Nat.mul_le_mul_right _ hlow
  · rw [Nat.add_right_comm, Nat.pow_add]
    exact Nat.mul_lt_mul_of_pos_right hhigh hpos

theorem spacing_dvd_of_le {m : Nat} (h : m ≤ 2 ^ 53) :
    spacing (m * unitsPerOne) ∣ m * unitsPerOne := by
  obtain ⟨e, he⟩ := exists_unitsPerOne
  rw [he, spacing]
  rcases Nat.eq_zero_or_pos m with rfl | hpos
  · rw [Nat.zero_mul]
    exact Nat.dvd_zero _
  · rw [log2_mul_two_pow (Nat.ne_of_gt hpos)]
    -- the spacing divides the unit, or it is twice the unit and divides `2^53` of them
    rcases Nat.lt_or_eq_of_le h with hlt | rfl
    · have hlog : m.log2 < 53 := (Nat.log2_lt (Nat.ne_of_gt hpos)).mpr hlt
      exact Nat.dvd_mul_left_of_dvd (Nat.pow_dvd_pow 2 (by omega)) m
    · rw [Nat.log2_two_pow, ← Nat.pow_add]
      exact Nat.pow_dvd_pow 2 (by omega)

/-- A whole number of at most 53 bits, or `2^53`, is not rounded. -/
theorem roundUnits_of_le {m : Nat} (h : m ≤ 2 ^ 53) :
    roundUnits (m * unitsPerOne) 1 = m * unitsPerOne := by
  simpa only [Nat.mul_one] using roundUnits_of_dvd Nat.one_pos (spacing_dvd_of_le h)

/-- A whole number from `2^53` on is not rounded below that. -/
theorem le_roundUnits {m : Nat} (h : 2 ^ 53 ≤ m) :
    2 ^ 53 * unitsPerOne ≤ roundUnits (m * unitsPerOne) 1 := by
  obtain ⟨e, he⟩ := exists_unitsPerOne
  have hm : m ≠ 0 := by omega
  have hlog : 53 ≤ m.log2 := (Nat.le_log2 hm).mpr h
  have hne : m * 2 ^ e ≠ 0 := Nat.mul_ne_zero hm (Nat.ne_of_gt (Nat.two_pow_pos e))
  rw [he]
  calc 2 ^ 53 * 2 ^ e = 2 ^ (53 + e) := (Nat.pow_add 2 53 e).symm
    _ ≤ 2 ^ (m.log2 + e) := Nat.pow_le_pow_right (by decide) (by omega)
    _ = 2 ^ (m * 2 ^ e).log2 := by rw [log2_mul_two_pow hm]
    _ ≤ roundUnits (m * 2 ^ e) 1 := two_pow_log2_le_roundUnits hne

namespace Scaled

variable {m n : Int}

theorem natAbs_toInt (x : Scaled) : x.toInt.natAbs = x.units := by
  unfold toInt
  split
  · rw [Int.natAbs_neg, Int.natAbs_natCast]
  · exact Int.natAbs_natCast _

theorem compare_eq_iff {x y : Scaled} : x.compare y = .eq ↔ x.toInt = y.toInt := by
  rw [Scaled.compare, Int.compare_eq_eq]

theorem negative_ofInt (n : Int) : (ofInt n).negative = decide (n < 0) := rfl

theorem units_ofInt (h : n.natAbs ≤ 2 ^ 53) : (ofInt n).units = n.natAbs * unitsPerOne :=
  roundUnits_of_le h

theorem toInt_ofInt (h : n.natAbs ≤ 2 ^ 53) : (ofInt n).toInt = n * unitsPerOne := by
  have hunits : ((ofInt n).units : Int) = (n.natAbs : Int) * unitsPerOne := by
    rw [units_ofInt h, Int.natCast_mul]
  rw [toInt, negative_ofInt]
  by_cases hneg : n < 0
  · have habs : (n.natAbs : Int) = -n := by omega
    rw [if_pos (decide_eq_true hneg), hunits, habs, Int.neg_mul, Int.neg_neg]
  · have habs : (n.natAbs : Int) = n := by omega
    rw [if_neg (by simpa using hneg), hunits, habs]

/-- Integers that one number stands for are the same up to `2^53`. -/
theorem eq_of_toInt_eq_of_le (hm : m.natAbs ≤ 2 ^ 53) (hn : n.natAbs ≤ 2 ^ 53)
    (h : (ofInt m).toInt = (ofInt n).toInt) : m = n := by
  rw [toInt_ofInt hm, toInt_ofInt hn] at h
  have hpos : (unitsPerOne : Int) ≠ 0 := Int.natCast_ne_zero.mpr (Nat.ne_of_gt unitsPerOne_pos)
  exact Int.eq_of_mul_eq_mul_right hpos h

/-- Below `2^53` an integer shares its number with no other integer at all. -/
theorem eq_of_toInt_eq (hm : m.natAbs < 2 ^ 53) (h : (ofInt m).toInt = (ofInt n).toInt) :
    m = n := by
  rcases Nat.le_total n.natAbs (2 ^ 53) with hn | hn
  · exact eq_of_toInt_eq_of_le (Nat.le_of_lt hm) hn h
  · -- the other one is rounded to a number that is too large
    exfalso
    have hunits : (ofInt m).units = (ofInt n).units := by
      rw [← natAbs_toInt, h, natAbs_toInt]
    have hlarge : 2 ^ 53 * unitsPerOne ≤ (ofInt n).units := le_roundUnits hn
    rw [← hunits, units_ofInt (Nat.le_of_lt hm)] at hlarge
    have hsmall := Nat.mul_lt_mul_of_pos_right hm unitsPerOne_pos
    exact Nat.lt_irrefl _ (Nat.lt_of_lt_of_le hsmall hlarge)

variable {x : Scaled}

theorem units_of_toInt (h : x.toInt = n * unitsPerOne) : x.units = n.natAbs * unitsPerOne := by
  rw [← natAbs_toInt, h, Int.natAbs_mul, Int.natAbs_natCast]

theorem isWhole_of_toInt (h : x.toInt = n * unitsPerOne) : x.isWhole = true := by
  rw [isWhole, units_of_toInt h, Nat.mul_mod_left]
  rfl

/-- The sign of the whole part is the sign of the number; zero may have either. -/
theorem truncate_of_toInt (h : x.toInt = n * unitsPerOne) : x.truncate = n := by
  rw [truncate, units_of_toInt h, Nat.mul_div_cancel _ unitsPerOne_pos]
  have hone : (0 : Int) < unitsPerOne := Int.natCast_pos.mpr unitsPerOne_pos
  unfold toInt at h
  split at h
  · next hneg =>
    have hn : n ≤ 0 := by
      apply Int.not_lt.mp
      intro hpos
      have hprod := Int.mul_pos hpos hone
      omega
    rw [if_pos hneg]
    omega
  · next hneg =>
    have hn : 0 ≤ n := by
      apply Int.not_lt.mp
      intro hpos
      have hprod := Int.mul_neg_of_neg_of_pos hpos hone
      omega
    rw [if_neg hneg]
    omega

theorem toInt64_of_toInt (h : x.toInt = n * unitsPerOne) (hn : n.natAbs ≤ 2 ^ 53) :
    x.toInt64 = n := by
  have hlow : ¬n < -9223372036854775808 := by omega
  have hhigh : ¬9223372036854775807 < n := by omega
  unfold toInt64
  rw [truncate_of_toInt h, if_neg hlow, if_neg hhigh]

end Scaled

/-- A number is an integer of at most `2^53` in absolute value, in whichever form it is written:
`2` and `2.0` are both the integer two. -/
structure Number.IsInteger (x : Number) (n : Int) : Prop where
  toInt_eq : x.toScaled.toInt = n * unitsPerOne
  natAbs_le : n.natAbs ≤ 2 ^ 53

namespace Number

theorem isInteger_int {n : Int} (h : n.natAbs ≤ 2 ^ 53) : (int n).IsInteger n :=
  ⟨Scaled.toInt_ofInt h, h⟩

theorem IsInteger.toInt64_eq {x : Number} {n : Int} (h : x.IsInteger n) :
    x.toScaled.toInt64 = n :=
  Scaled.toInt64_of_toInt h.toInt_eq h.natAbs_le

theorem IsInteger.toInt_neg_iff {x : Number} {n : Int} (h : x.IsInteger n) :
    x.toScaled.toInt < 0 ↔ n < 0 := by
  have hone : (0 : Int) < unitsPerOne := Int.natCast_pos.mpr unitsPerOne_pos
  rw [h.toInt_eq]
  constructor
  · intro hneg
    apply Int.not_le.mp
    intro hn
    have hprod := Int.mul_nonneg hn (Int.le_of_lt hone)
    omega
  · intro hn
    exact Int.mul_neg_of_neg_of_pos hn hone

end Number

namespace Access

theorem wholeIndex_of_isWhole {v : Value} {x : Scaled} (hv : v.asScaled = .ok x)
    (hx : x.isWhole = true) : wholeIndex v = .ok x.toInt64 := by
  unfold wholeIndex
  rw [hv]
  simp only [bind, Except.bind, hx, if_true]
  rfl

theorem wholeIndex_of_isInteger {x : Number} {n : Int} (h : x.IsInteger n) :
    wholeIndex (.number x) = .ok n := by
  have hscaled : (Value.number x).asScaled = .ok x.toScaled := rfl
  rw [wholeIndex_of_isWhole hscaled (Scaled.isWhole_of_toInt h.toInt_eq), h.toInt64_eq]

/-- An integer is the index that it is written as. -/
theorem wholeIndex_int {n : Int} (h : n.natAbs ≤ 2 ^ 53) :
    wholeIndex (.number (.int n)) = .ok n :=
  wholeIndex_of_isInteger (Number.isInteger_int h)

end Access

end TableQuery
