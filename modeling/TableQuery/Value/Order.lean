import TableQuery.Value.Basic

namespace TableQuery

namespace Value

mutual
def equals : Value → Value → Bool
  | null, null => true
  | bool a, bool b => a == b
  | number a, number b => a.toScaled.compare b.toScaled == .eq
  | string a, string b => a == b
  | array xs, array ys => equalItems xs ys
  | object xs, object ys => xs.length == ys.length && equalFields xs ys
  | _, _ => false

def equalItems : List Value → List Value → Bool
  | [], [] => true
  | x :: xs, y :: ys => equals x y && equalItems xs ys
  | _, _ => false

/-- Every field of the first list has an equal field in the second. -/
def equalFields : List (String × Value) → List (String × Value) → Bool
  | [], _ => true
  | (key, x) :: rest, ys =>
    (match Fields.get? key ys with
    | some y => equals x y
    | none => false) && equalFields rest ys
end

def strictEquals (a b : Value) : Bool := decide (a.kind = b.kind) && equals a b

mutual
/-- The order of values: by kind, then within the kind. Objects are not told apart. -/
def compare : Value → Value → Ordering
  | bool a, bool b => Ord.compare a b
  | number a, number b => a.toScaled.compare b.toScaled
  | string a, string b => Ord.compare a b
  | array xs, array ys => compareItems xs ys
  | a, b => Ord.compare a.kind.rank b.kind.rank

def compareItems : List Value → List Value → Ordering
  | [], [] => .eq
  | [], _ :: _ => .lt
  | _ :: _, [] => .gt
  | x :: xs, y :: ys => (compare x y).then (compareItems xs ys)
end

/-- Row identity: the primary keys if both rows have one, else the whole rows. -/
def sameRow (a b : Value) : Bool :=
  match a.id?, b.id? with
  | some x, some y => strictEquals x y
  | _, _ => equals a b

end Value

end TableQuery
