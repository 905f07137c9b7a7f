import TableQuery.Action.Access

namespace TableQuery.Range

open Act Access

def slice (receiver : Value) (args : List Argument) : Act Value := do
  let rows ← ofExcept (items receiver)
  return .array (← ofExcept (Sequence.slice rows (← resolveAll args)))

def limit (receiver : Value) (n : Argument) : Act Value := do
  let n ← ofExcept (← resolve n).asScaled
  if n.toInt < 0 then throw .negativeLimit
  let rows ← ofExcept (items receiver)
  return .array (rows.take n.truncate.toNat)

def count (receiver : Value) : Act Value :=
  match receiver with
  | .array items => return .ofNat items.length
  | .object fields => return .ofNat fields.length
  | v => throw (.unaccepted .arrayOrObject v.kind)

/-- The positions of the rows for which a deferred predicate holds. -/
def offsetsWhere (run : Option Value → Eval Value) (rows : List Value) : Act (List Nat) :=
  rows.zipIdx.foldlM (fun offsets (row, index) => do
    if (← ofEval (run (some row))).isTruthy then return offsets ++ [index] else return offsets) []

def offsetsOf (receiver : Value) (needle : Argument) : Act Value := do
  let rows ← ofExcept (items receiver)
  let offsets ← match needle with
    | .deferred run => offsetsWhere run rows
    | needle => pure (Sequence.offsetsOf (← resolve needle) rows)
  return .array (offsets.map .ofNat)

def matchesFields (wanted : Fields) (row : Value) : Bool :=
  wanted.all fun (name, value) => (row.field? name).any fun found => found.equals value

/-- What a predicate that is no row expression keeps: an object asks for equal fields, any other
value keeps all rows or none. -/
def keepConstant (predicate : Value) (rows : List Value) : List Value :=
  match predicate with
  | .object wanted => rows.filter (matchesFields wanted)
  | v => if v.isTruthy then rows else []

def rowsWhere (run : Option Value → Eval Value) (rows : List Value) : Act (List Value) :=
  rows.foldlM (fun kept row => do
    if (← ofEval (run (some row))).isTruthy then return kept ++ [row] else return kept) []

def filter (receiver : Value) (predicate : Argument) : Act Value := do
  let rows ← ofExcept (items receiver)
  match predicate with
  | .deferred run => return .array (← rowsWhere run rows)
  | predicate => return .array (keepConstant (← resolve predicate) rows)

def orderBy (receiver : Value) (field : Argument) : Act Value := do
  let name ← ofExcept (← resolve field).asString
  let rows ← ofExcept (items receiver)
  return .array (← ofExcept (Sequence.orderBy name rows))

def entries : List Entry := [
  ⟨"slice", .oneToThree, .sequence, .variadic slice⟩,
  ⟨"limit", .one, .sequence, .unary limit⟩,
  ⟨"count", .none, .datum, .nullary count⟩,
  ⟨"offsetsOf", .one, .datum, .unary offsetsOf⟩,
  ⟨"filter", .one, .sequence, .unary filter⟩,
  ⟨"orderBy", .one, .sequence, .unary orderBy⟩]

end TableQuery.Range
