import Mathlib.Tactic.Ring
import TableQuery.Proofs.Action.Deferral
import TableQuery.Proofs.Binary64.Integers

namespace TableQuery

variable {m n : Int}

namespace Scaled

theorem toInt_ofSign (t : Int) : (⟨t < 0, t.natAbs⟩ : Scaled).toInt = t := by
  unfold toInt
  dsimp only
  split
  · next hneg =>
    have hneg := of_decide_eq_true hneg
    omega
  · next hpos =>
    have hpos : ¬t < 0 := fun h => hpos (decide_eq_true h)
    omega

theorem toInt_neg (x : Scaled) : x.neg.toInt = -x.toInt := by
  obtain ⟨negative, units⟩ := x
  cases negative <;> simp [neg, toInt]

/-- The sign of a product is negative if one of the signs is. -/
theorem toInt_mul_toInt (x y : Scaled) :
    x.toInt * y.toInt = (⟨x.negative != y.negative, x.units * y.units⟩ : Scaled).toInt := by
  obtain ⟨negative, units⟩ := x
  obtain ⟨negative', units'⟩ := y
  cases negative <;> cases negative' <;> simp [toInt]

theorem toInt_mul (negative : Bool) (a b : Nat) :
    (⟨negative, a * b⟩ : Scaled).toInt = (⟨negative, a⟩ : Scaled).toInt * b := by
  cases negative <;> simp [toInt]

end Scaled

theorem Number.IsInteger.units_eq {x : Number} (hx : x.IsInteger m) :
    x.toScaled.units = m.natAbs * unitsPerOne :=
  Scaled.units_of_toInt hx.toInt_eq

theorem Number.IsInteger.neg {x : Number} (hx : x.IsInteger m) :
    (Number.real x.toScaled.neg).IsInteger (-m) where
  toInt_eq := by
    change x.toScaled.neg.toInt = _
    rw [Scaled.toInt_neg, hx.toInt_eq, Int.neg_mul]
  natAbs_le := by
    rw [Int.natAbs_neg]
    exact hx.natAbs_le

theorem two_pow_53_lt_infinite : 2 ^ 53 * unitsPerOne < Nat.pow 2 2098 := by
  decide +kernel

namespace Binary64

/-- A fraction that comes to a whole number up to `2^53` is neither rounded nor infinite. -/
theorem round_of_le (negative : Bool) {k den : Nat} (hk : k ≤ 2 ^ 53) (hden : 0 < den) :
    round negative (k * unitsPerOne * den) den = .finite ⟨negative, k * unitsPerOne⟩ := by
  have hfinite : ¬Nat.pow 2 2098 ≤ k * unitsPerOne := Nat.not_le.mpr
    (Nat.lt_of_le_of_lt (Nat.mul_le_mul_right unitsPerOne hk) two_pow_53_lt_infinite)
  rw [round, roundUnits_of_dvd hden (spacing_dvd_of_le hk)]
  exact if_neg hfinite

def ExactAt (op : Binary64 → Binary64 → Binary64) (m n k : Int) : Prop :=
  ∀ x y : Number, x.IsInteger m → y.IsInteger n →
    ∃ z : Scaled, op x.toBinary64 y.toBinary64 = .finite z ∧ (Number.real z).IsInteger k

theorem exactAt_add (h : (m + n).natAbs ≤ 2 ^ 53) : ExactAt add m n (m + n) := by
  intro x y hx hy
  have hsum : x.toScaled.toInt + y.toScaled.toInt = (m + n) * unitsPerOne := by
    rw [hx.toInt_eq, hy.toInt_eq, Int.add_mul]
  simp only [Number.toBinary64, add]
  rw [hsum]
  split
  · -- the sum may be a negative zero, which is the integer zero too
    next hzero =>
    refine ⟨⟨x.toScaled.negative && y.toScaled.negative, 0⟩, rfl, ?_, h⟩
    rw [hzero]
    exact ite_self 0
  · refine ⟨⟨(m + n) * unitsPerOne < 0, (m + n).natAbs * unitsPerOne⟩, ?_, ?_, h⟩
    · rw [← round_of_le _ h Nat.one_pos, Nat.mul_one, Int.natAbs_mul, Int.natAbs_natCast]
    · have hsign := Scaled.toInt_ofSign ((m + n) * unitsPerOne)
      rwa [Int.natAbs_mul, Int.natAbs_natCast] at hsign

theorem exactAt_sub (h : (m - n).natAbs ≤ 2 ^ 53) : ExactAt sub m n (m - n) :=
  fun x _ hx hy => exactAt_add h x _ hx hy.neg

theorem exactAt_mul (h : (m * n).natAbs ≤ 2 ^ 53) : ExactAt mul m n (m * n) := by
  intro x y hx hy
  have hunits : x.toScaled.units * y.toScaled.units =
      (m * n).natAbs * unitsPerOne * unitsPerOne := by
    rw [hx.units_eq, hy.units_eq, Int.natAbs_mul]
    ring
  let z : Scaled := ⟨x.toScaled.negative != y.toScaled.negative, (m * n).natAbs * unitsPerOne⟩
  refine ⟨z, ?_, ?_, h⟩
  · simp only [Number.toBinary64, mul]
    rw [hunits, round_of_le _ h unitsPerOne_pos]
  · -- the product of the operands counts in units of units
    have hone : (unitsPerOne : Int) ≠ 0 := Int.natCast_ne_zero.mpr (Nat.ne_of_gt unitsPerOne_pos)
    apply Int.eq_of_mul_eq_mul_right hone
    calc z.toInt * unitsPerOne
      _ = (⟨z.negative, z.units * unitsPerOne⟩ : Scaled).toInt := (Scaled.toInt_mul ..).symm
      _ = x.toScaled.toInt * y.toScaled.toInt := by rw [Scaled.toInt_mul_toInt, hunits]
      _ = m * n * unitsPerOne * unitsPerOne := by
        rw [hx.toInt_eq, hy.toInt_eq]
        ring

theorem exactAt_div (hn : n ≠ 0) (h : n ∣ m) : ExactAt div m n (m / n) := by
  obtain ⟨q, rfl⟩ := h
  rw [Int.mul_ediv_cancel_left q hn]
  intro x y hx hy
  -- the quotient is no larger than the dividend, so that its size needs no hypothesis
  have hq : q.natAbs ≤ 2 ^ 53 := by
    refine Nat.le_trans ?_ hx.natAbs_le
    rw [Int.natAbs_mul]
    exact Nat.le_mul_of_pos_left _ (Int.natAbs_pos.mpr hn)
  have hpos : 0 < y.toScaled.units := by
    rw [hy.units_eq]
    exact Nat.mul_pos (Int.natAbs_pos.mpr hn) unitsPerOne_pos
  have hunits : x.toScaled.units * unitsPerOne =
      q.natAbs * unitsPerOne * y.toScaled.units := by
    rw [hx.units_eq, hy.units_eq, Int.natAbs_mul]
    ring
  let z : Scaled := ⟨x.toScaled.negative != y.toScaled.negative, q.natAbs * unitsPerOne⟩
  refine ⟨z, ?_, ?_, hq⟩
  · simp only [Number.toBinary64, div]
    rw [if_neg (Nat.ne_of_gt hpos), hunits, round_of_le _ hq hpos]
  · -- times the divisor it is the dividend again
    have hne : y.toScaled.toInt ≠ 0 := by
      rw [← Int.natAbs_pos, Scaled.natAbs_toInt]
      exact hpos
    apply Int.eq_of_mul_eq_mul_right hne
    calc z.toInt * y.toScaled.toInt
      _ = (⟨x.toScaled.negative, x.toScaled.units * unitsPerOne⟩ : Scaled).toInt := by
        rw [Scaled.toInt_mul_toInt, hunits]
        simp [z]
      _ = q * unitsPerOne * y.toScaled.toInt := by
        rw [Scaled.toInt_mul]
        change x.toScaled.toInt * _ = _
        rw [hx.toInt_eq, hy.toInt_eq]
        ring

theorem toValue_of_isInteger {x : Number} (hx : x.IsInteger n) :
    x.toBinary64.toValue = .ok (.number (.int n)) := by
  have hle : x.toScaled.units ≤ Nat.pow 2 53 * unitsPerOne := by
    rw [hx.units_eq]
    exact Nat.mul_le_mul_right unitsPerOne hx.natAbs_le
  simp only [Number.toBinary64, toValue]
  rw [Scaled.isWhole_of_toInt hx.toInt_eq, Scaled.truncate_of_toInt hx.toInt_eq]
  exact if_pos (decide_eq_true hle)

end Binary64

namespace Arithmetic

open Binary64

variable {op : Binary64 → Binary64 → Binary64} {f : Int → Int → Int} {ns : List Int}
  {x : Number} {ys : List Number}

/-- What comes of a step of a fold is one of its partial results. -/
theorem mem_scanl_of_mem_zip {step : Int × Int} (h : step ∈ (ns.scanl f m).zip ns) :
    f step.1 step.2 ∈ ns.scanl f m := by
  induction ns generalizing m with
  | nil => simp at h
  | cons n rest ih =>
    rw [List.scanl_cons] at h ⊢
    rcases List.mem_cons.mp h with rfl | hrest
    · cases rest <;> simp
    · exact List.mem_cons_of_mem m (ih hrest)

theorem foldNumbers_cons {y : Number} {z : Scaled}
    (hz : op x.toBinary64 y.toBinary64 = .finite z) (rest : List Value) :
    foldNumbers op (.number x) (.number y :: rest) = foldNumbers op (.number (.real z)) rest := by
  have hstep : (do return op x.toBinary64 (.finite (← (Value.number y).asScaled)) :
      Except Error Binary64) = .ok (.finite z) := congrArg Except.ok hz
  change ((do return op x.toBinary64 (.finite (← (Value.number y).asScaled))) >>= fun total =>
    rest.foldlM _ total) >>= Binary64.toValue = _
  rw [hstep]
  rfl

/-- A fold all of whose steps are exact gives an integer. -/
theorem foldNumbers_of_exactAt (hx : x.IsInteger m) (hys : List.Forall₂ Number.IsInteger ys ns)
    (hexact : ∀ step ∈ (ns.scanl f m).zip ns, ExactAt op step.1 step.2 (f step.1 step.2)) :
    foldNumbers op (.number x) (ys.map .number) = .ok (.number (.int (ns.foldl f m))) := by
  -- the result of a step is the receiver of the steps that follow
  induction hys generalizing m x with
  | nil => exact toValue_of_isInteger hx
  | @cons y n ys ns hy _ ih =>
    rw [List.scanl_cons, List.zip_cons_cons, List.forall_mem_cons] at hexact
    obtain ⟨z, hz, hinteger⟩ := hexact.1 x y hx hy
    rw [List.map_cons, foldNumbers_cons hz]
    exact ih hinteger hexact.2

/-- The same for an operation that is exact where its result stays up to `2^53`. -/
theorem foldNumbers_of_scanl_le (hop : ∀ {m n}, (f m n).natAbs ≤ 2 ^ 53 → ExactAt op m n (f m n))
    (hx : x.IsInteger m) (hys : List.Forall₂ Number.IsInteger ys ns)
    (hle : ∀ total ∈ ns.scanl f m, total.natAbs ≤ 2 ^ 53) :
    foldNumbers op (.number x) (ys.map .number) = .ok (.number (.int (ns.foldl f m))) :=
  foldNumbers_of_exactAt hx hys fun _ hstep => hop (hle _ (mem_scanl_of_mem_zip hstep))

theorem sum_numbers (x : Number) (ys : List Number) :
    sum (.number x) (ys.map .number) = foldNumbers .add (.number x) (ys.map .number) := by
  have hkinds : (ys.map Value.number).forM (Value.expect .number) = .ok () := by
    induction ys with
    | nil => rfl
    | cons y rest ih =>
      rw [List.map_cons]
      exact ih
  change ((ys.map Value.number).forM (Value.expect .number) >>= fun _ => _) = _
  rw [hkinds]
  rfl

def FoldsNumbers (action : String) (op : Binary64 → Binary64 → Binary64) : Prop :=
  ∀ (x : Number) (ys : List Number) (args : List Argument) (c next : Context), args ≠ [] →
    (Act.resolveAll args).runFrom c = (.ok (ys.map .number), next) →
    (Registry.builtin.invoke action (.number x) args).runFrom c =
      (foldNumbers op (.number x) (ys.map .number), next)

theorem foldsNumbers_of_describe {action : String} {run : Value → List Argument → Act Value}
    {fold : Value → List Value → Except Error Value}
    (h : Registry.builtin.describe action = .ok ⟨.oneOrMore, .datum, .variadic run⟩)
    (hrun : ∀ x args, run (.number x) args =
      Act.resolveAll args >>= fun values => (ofExcept (fold (.number x) values) : Act Value))
    (hfold : ∀ (x : Number) (ys : List Number), fold (.number x) (ys.map .number) =
      foldNumbers op (.number x) (ys.map .number)) : FoldsNumbers action op := by
  intro x ys args c next hargs hresolve
  obtain ⟨arg, rest, rfl⟩ := List.exists_cons_of_ne_nil hargs
  rw [Registry.invoke_oneOrMore h]
  dsimp only
  rw [hrun, Act.runFrom_bind, hresolve]
  dsimp only
  rw [Act.runFrom_ofExcept, hfold]

theorem foldsNumbers_add : FoldsNumbers "add" .add :=
  foldsNumbers_of_describe rfl (fun _ _ => rfl) sum_numbers

theorem foldsNumbers_sub : FoldsNumbers "sub" .sub :=
  foldsNumbers_of_describe rfl (fun _ _ => rfl) fun _ _ => rfl

theorem foldsNumbers_mul : FoldsNumbers "mul" .mul :=
  foldsNumbers_of_describe rfl (fun _ _ => rfl) fun _ _ => rfl

theorem foldsNumbers_div : FoldsNumbers "div" .div :=
  foldsNumbers_of_describe rfl (fun _ _ => rfl) fun _ _ => rfl

def GivesInteger (action : String) (m : Int) (ns : List Int) (k : Int) : Prop :=
  ∀ (x : Number) (ys : List Number) (args : List Argument) (c next : Context),
    x.IsInteger m → List.Forall₂ Number.IsInteger ys ns →
    (Act.resolveAll args).runFrom c = (.ok (ys.map .number), next) →
    (Registry.builtin.invoke action (.number x) args).runFrom c =
      (.ok (.number (.int k)), next)

theorem FoldsNumbers.givesInteger {action : String} (h : FoldsNumbers action op) (hns : ns ≠ [])
    {k : Int} (hfold : ∀ (x : Number) (ys : List Number), x.IsInteger m →
      List.Forall₂ Number.IsInteger ys ns →
      foldNumbers op (.number x) (ys.map .number) = .ok (.number (.int k))) :
    GivesInteger action m ns k := by
  intro x ys args c next hx hys hresolve
  -- there are as many arguments as integers
  have hargs : args ≠ [] := by
    rintro rfl
    obtain rfl : ys = [] := by
      cases ys with
      | nil => rfl
      | cons y rest => cases hresolve
    cases hys
    exact hns rfl
  rw [h x ys args c next hargs hresolve, hfold x ys hx hys]

/-- Arithmetic on integers up to `2^53` is exact. A sum, difference or product all of whose partial
results are such integers is the integer that it would be without rounding, and so is a quotient
if each partial division is exact and by a divisor other than zero. -/
theorem fold_integers (m : Int) (hns : ns ≠ []) :
    ((∀ total ∈ ns.scanl (· + ·) m, total.natAbs ≤ 2 ^ 53) →
        GivesInteger "add" m ns (ns.foldl (· + ·) m)) ∧
      ((∀ total ∈ ns.scanl (· - ·) m, total.natAbs ≤ 2 ^ 53) →
        GivesInteger "sub" m ns (ns.foldl (· - ·) m)) ∧
      ((∀ total ∈ ns.scanl (· * ·) m, total.natAbs ≤ 2 ^ 53) →
        GivesInteger "mul" m ns (ns.foldl (· * ·) m)) ∧
      ((∀ step ∈ (ns.scanl (· / ·) m).zip ns, step.2 ≠ 0 ∧ step.2 ∣ step.1) →
        GivesInteger "div" m ns (ns.foldl (· / ·) m)) := by
  refine ⟨fun hle => ?_, fun hle => ?_, fun hle => ?_, fun hsteps => ?_⟩
  · exact foldsNumbers_add.givesInteger hns fun _ _ hx hys =>
      foldNumbers_of_scanl_le exactAt_add hx hys hle
  · exact foldsNumbers_sub.givesInteger hns fun _ _ hx hys =>
      foldNumbers_of_scanl_le exactAt_sub hx hys hle
  · exact foldsNumbers_mul.givesInteger hns fun _ _ hx hys =>
      foldNumbers_of_scanl_le exactAt_mul hx hys hle
  · exact foldsNumbers_div.givesInteger hns fun _ _ hx hys =>
      foldNumbers_of_exactAt hx hys fun step hstep =>
        exactAt_div (hsteps step hstep).1 (hsteps step hstep).2

/-- Results at both ends of the range, and a zero that is a negative zero before it is written. -/
theorem fold_integers_ends :
    let c : Context := ⟨.datum, {}, ⟨⟨[]⟩, ⟨fun _ _ => ""⟩, 0⟩⟩
    let call (action : String) (m : Int) (ns : List Int) : Except Error Value × Context :=
      (Registry.builtin.invoke action (.number (.int m))
        (ns.map fun n => .datum (.number (.int n)))).runFrom c
    call "add" 9007199254740990 [1, 1] = (.ok (.number (.int 9007199254740992)), c) ∧
      call "sub" (-9007199254740991) [1] = (.ok (.number (.int (-9007199254740992))), c) ∧
      call "mul" (-3) [0] = (.ok (.number (.int 0)), c) ∧
      call "div" (-9007199254740992) [2, -4] = (.ok (.number (.int 1125899906842624)), c) := by
  intro c call
  have hcall {action : String} {m k : Int} {ns : List Int} (h : GivesInteger action m ns k)
      (hm : m.natAbs ≤ 2 ^ 53) (hns : ∀ n ∈ ns, n.natAbs ≤ 2 ^ 53) :
      call action m ns = (.ok (.number (.int k)), c) := by
    refine h (.int m) (ns.map .int) _ c c (Number.isInteger_int hm) ?_ ?_
    · rw [List.forall₂_map_left_iff, List.forall₂_same]
      exact fun n hn => Number.isInteger_int (hns n hn)
    · have hargs : (ns.map fun n => Argument.datum (.number (.int n))) =
          ((ns.map Number.int).map Value.number).map .datum := by simp
      rw [hargs, Act.resolveAll_datums]
      rfl
  obtain ⟨hadd, -⟩ := fold_integers 9007199254740990 (List.cons_ne_nil 1 [1])
  obtain ⟨-, hsub, -⟩ := fold_integers (-9007199254740991) (List.cons_ne_nil 1 [])
  obtain ⟨-, -, hmul, -⟩ := fold_integers (-3) (List.cons_ne_nil 0 [])
  obtain ⟨-, -, -, hdiv⟩ := fold_integers (-9007199254740992) (List.cons_ne_nil 2 [-4])
  refine ⟨?_, ?_, ?_, ?_⟩
  · exact hcall (hadd (by decide)) (by decide) (by decide)
  · exact hcall (hsub (by decide)) (by decide) (by decide)
  · exact hcall (hmul (by decide)) (by decide) (by decide)
  · exact hcall (hdiv (by decide)) (by decide) (by decide)

end Arithmetic

end TableQuery
