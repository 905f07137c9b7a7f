import TableQuery.Action.Access

namespace TableQuery.Selection

open Act Access

def checkKey (primary : Bool) (key : Value) : Except Error Unit :=
  if key.isValidKey then .ok () else .error (.illegalKey primary)

def keyPosition (key : Value) (rows : List Value) : Option Nat :=
  rows.findIdx? fun row => row.id?.any fun id => id.strictEquals key

/-- The row with a primary key, or `null`. The key and the row's position are bound. -/
def get (table : Value) (key : Argument) : Act Value := do
  ask (Context.expectType .table)
  if key matches .undefined then throw .undefinedKey
  let key ← resolve key
  ofExcept (checkKey true key)
  let rows ← ofExcept (items table)
  let index := keyPosition key rows
  setRowIndex index
  setRowId (some key)
  return (index.bind fun i => rows[i]?).getD .null

/-- The field that keys are looked for in: the primary key unless the options name another. -/
def indexField (options : Option Fields) : Except Error String :=
  match options.bind (Fields.get? "index") with
  | none | some .null => .ok primaryKey
  | some v => v.asString

def checkKeys (index : String) (keys : List Value) : Except Error Unit :=
  keys.forM fun key =>
    if key.isNull then throw .nullKey else checkKey (index == primaryKey) key

/-- Array keys are compared deeply, others as values of one kind. -/
def keyMatches (field key : Value) : Bool :=
  match key with
  | .array _ => key.equals field
  | _ => key.strictEquals field

/-- The rows in which a field has one of some keys, in table order. -/
def withKeys (index : String) (keys rows : List Value) : List Value :=
  rows.filter fun row => (row.field? index).any fun field => keys.any (keyMatches field)

/-- The rows that have one of the keys. A last argument that is an object holds options. -/
def getAll (table : Value) (args : List Argument) : Act Value := do
  ask (Context.expectType .table)
  setRowIndex none
  setRowId none
  let (keys, options) := Sequence.splitOptions (← resolveAll args)
  let index ← ofExcept (indexField options)
  ofExcept (checkKeys index keys)
  return .array (withKeys index keys (← ofExcept (items table)))

def entries : List Entry := [
  ⟨"get", .one, .selection, .unary get⟩,
  ⟨"getAll", .oneOrMore, .selectionArray, .variadic getAll⟩]

end TableQuery.Selection
