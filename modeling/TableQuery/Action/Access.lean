import TableQuery.Action.Registry
import TableQuery.Sequence

namespace TableQuery.Access

open Act

def wholeIndex (index : Value) : Except Error Int := do
  let x ← index.asScaled
  if x.isWhole then return x.toInt64 else throw (.fractionalIndex x)

def items : Value → Except Error (List Value)
  | .array items => .ok items
  | v => .error (.unaccepted .array v.kind)

/-- The row at a position. The end of a stream may be asked for its last row only. -/
def nthRow (receiver index : Value) : Act Value := do
  let index ← ofExcept (wholeIndex index)
  if index < -1 && (← get).type.isStream then throw .streamIndex
  let rows ← ofExcept (items receiver)
  let row ← ofExcept (Sequence.nth rows index)
  bindRow row (Sequence.fromEnd rows.length index).toNat
  return row

def nth (receiver : Value) (index : Argument) : Act Value := do
  nthRow receiver (← resolve index)

/-- Applies to an object, or to the rows of an array. -/
def onRows (accepted : Accepted) (ofRows : List Value → Except Error Value)
    (ofObject : Fields → Value) : Value → Except Error Value
  | .array rows => ofRows rows
  | .object fields => .ok (ofObject fields)
  | v => .error (.unaccepted accepted v.kind)

def fieldOf (accepted : Accepted) (name : String) : Value → Except Error Value :=
  onRows accepted (fun rows => .array <$> Sequence.getField name rows) (Fields.field name)

/-- A number picks a row and a string a field. -/
def bracket (receiver : Value) (key : Argument) : Act Value := do
  match ← resolve key with
  | .number n => nthRow receiver (.number n)
  | .string name => ofExcept (fieldOf .bracketReceiver name receiver)
  | other => throw (.unaccepted .bracketKey other.kind)

def getField (receiver : Value) (name : Argument) : Act Value := do
  let name ← ofExcept (← resolve name).asString
  ofExcept (fieldOf .arrayOrObject name receiver)

def named (op : List String → Value → Except Error Value) (receiver : Value)
    (args : List Argument) : Act Value := do
  let names ← ofExcept (Value.fieldNames (← resolveAll args))
  ofExcept (op names receiver)

def hasFields (names : List String) : Value → Except Error Value :=
  onRows .arrayOrObject (fun rows => .array <$> Sequence.hasFields names rows)
    fun fields => .bool (Fields.hasAll names fields)

def pluck (names : List String) : Value → Except Error Value :=
  onRows .arrayOrObject (fun rows => .array <$> Sequence.pluck names rows)
    fun fields => .object (Fields.pluck names fields)

def without (names : List String) : Value → Except Error Value :=
  onRows .arrayOrObject (fun rows => .array <$> Sequence.without names rows)
    fun fields => .object (Fields.without names fields)

/-- Merges arguments into a row, one after the other; each sees the row as merged so far. -/
def mergeRow (args : List Argument) (row : Value) : Act Value :=
  args.foldlM (fun row arg => return row.merge (← evalRow row arg)) row

def merge (receiver : Value) (args : List Argument) : Act Value := do
  match receiver with
  | .array rows =>
    return .array (← rows.mapM fun row => do
      ofExcept (row.expect .object)
      mergeRow args row)
  | .object fields => mergeRow args (.object fields)
  | other => throw (.unaccepted .arrayOrObject other.kind)

def entries : List Entry := [
  ⟨"bracket", .one, .bracket, .unary bracket⟩,
  ⟨"nth", .one, .bracket, .unary nth⟩,
  ⟨"getField", .one, .datum, .unary getField⟩,
  ⟨"hasFields", .oneOrMore, .sequence, .variadic (named hasFields)⟩,
  ⟨"merge", .oneOrMore, .datum, .variadic merge⟩,
  ⟨"pluck", .oneOrMore, .datum, .variadic (named pluck)⟩,
  ⟨"without", .oneOrMore, .datum, .variadic (named without)⟩]

end TableQuery.Access
