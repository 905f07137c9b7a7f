namespace TableQuery

/-- A range of argument counts, both ends included; without `max` it has no upper end. -/
structure Arity where
  min : Nat
  max : Option Nat
  deriving DecidableEq, Repr, Inhabited

inductive Bound where
  | exactly
  | atMost
  | atLeast
  deriving DecidableEq, Repr

def Bound.words : Bound → String
  | exactly => "exactly"
  | atMost => "at most"
  | atLeast => "at least"

namespace Arity

def none : Arity := ⟨0, some 0⟩

def one : Arity := ⟨1, some 1⟩

def oneOrMore : Arity := ⟨1, Option.none⟩

def oneOrTwo : Arity := ⟨1, some 2⟩

def oneToThree : Arity := ⟨1, some 3⟩

def isVariadic (a : Arity) : Bool := a.max.isNone

def accepts (a : Arity) (count : Nat) : Bool :=
  decide (a.min ≤ count) && match a.max with
    | some max => decide (count ≤ max)
    | Option.none => true

def isRange (a : Arity) : Bool :=
  match a.max with
  | some max => decide (a.min ≤ max)
  | Option.none => true

/-- The bound that a count outside the range breaks, and its number. -/
def broken (a : Arity) (count : Nat) : Bound × Nat :=
  match a.max with
  | some max => if max = a.min then (.exactly, max) else if max < count then (.atMost, max)
    else (.atLeast, a.min)
  | Option.none => (.atLeast, a.min)

def text (a : Arity) : String :=
  match a.max with
  | some max => if max = a.min then toString max else s!"{a.min}..={max}"
  | Option.none => s!"{a.min}.."

end Arity

end TableQuery
