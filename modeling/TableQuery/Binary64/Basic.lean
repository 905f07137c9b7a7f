/-!
Binary64 numbers as exact integers. A finite number is a signed count of units of `2^-1074`, so
order is the order of integers and each operation is an exact fraction rounded once.
-/

namespace TableQuery

/-- A finite binary64 number: `units` times `2^-1074`. Zero keeps its sign. -/
structure Scaled where
  negative : Bool
  units : Nat
  deriving DecidableEq, Repr, Inhabited

inductive Binary64 where
  | nan
  | infinite (negative : Bool)
  | finite (x : Scaled)
  deriving DecidableEq, Repr, Inhabited

def unitsPerOne : Nat := Nat.pow 2 1074

/-- The quotient nearest to `num / den`; a half goes to the even neighbour. -/
def roundDiv (num den : Nat) : Nat :=
  let q := num / den
  let r := num % den
  if den < 2 * r ∨ (2 * r = den ∧ q % 2 = 1) then q + 1 else q

/-- The number nearest to `num / den` that has at most 53 significant bits. -/
def roundUnits (num den : Nat) : Nat :=
  let spacing := Nat.pow 2 (Nat.log2 (num / den) - 52)
  roundDiv num (den * spacing) * spacing

namespace Scaled

def toInt (x : Scaled) : Int := if x.negative then -(x.units : Int) else x.units

/-- The integer nearest to which 53 bits can come; every integer up to `2^53` is itself. -/
def ofInt (n : Int) : Scaled := ⟨n < 0, roundUnits (n.natAbs * unitsPerOne) 1⟩

def compare (x y : Scaled) : Ordering := Ord.compare x.toInt y.toInt

def neg (x : Scaled) : Scaled := ⟨!x.negative, x.units⟩

def isWhole (x : Scaled) : Bool := x.units % unitsPerOne == 0

/-- The integer part; the fraction is cut off. -/
def truncate (x : Scaled) : Int :=
  let n : Int := (x.units / unitsPerOne : Nat)
  if x.negative then -n else n

end Scaled

namespace Binary64

/-- The nearest number of the given sign to `num / den` units; from `2^1024` on it is infinite. -/
def round (negative : Bool) (num den : Nat) : Binary64 :=
  let units := roundUnits num den
  if Nat.pow 2 2098 ≤ units then .infinite negative else .finite ⟨negative, units⟩

def neg : Binary64 → Binary64
  | .nan => .nan
  | .infinite s => .infinite !s
  | .finite x => .finite x.neg

/-- A sum that is exactly zero is negative only if both terms are. -/
def add : Binary64 → Binary64 → Binary64
  | .nan, _ | _, .nan => .nan
  | .infinite s, .infinite t => if s = t then .infinite s else .nan
  | .infinite s, .finite _ => .infinite s
  | .finite _, .infinite t => .infinite t
  | .finite x, .finite y =>
    let sum := x.toInt + y.toInt
    if sum = 0 then .finite ⟨x.negative && y.negative, 0⟩
    else round (sum < 0) sum.natAbs 1

def sub (x y : Binary64) : Binary64 := add x (neg y)

def mul : Binary64 → Binary64 → Binary64
  | .nan, _ | _, .nan => .nan
  | .infinite s, .infinite t => .infinite (s != t)
  | .infinite s, .finite y => if y.units = 0 then .nan else .infinite (s != y.negative)
  | .finite x, .infinite t => if x.units = 0 then .nan else .infinite (x.negative != t)
  | .finite x, .finite y => round (x.negative != y.negative) (x.units * y.units) unitsPerOne

def div : Binary64 → Binary64 → Binary64
  | .nan, _ | _, .nan => .nan
  | .infinite _, .infinite _ => .nan
  | .infinite s, .finite y => .infinite (s != y.negative)
  | .finite x, .infinite t => .finite ⟨x.negative != t, 0⟩
  | .finite x, .finite y =>
    let negative := x.negative != y.negative
    if y.units = 0 then if x.units = 0 then .nan else .infinite negative
    else round negative (x.units * unitsPerOne) y.units

end Binary64

end TableQuery
