namespace TableQuery

inductive TypeTag where
  | datum
  | sequence
  | array
  | object
  | table
  | selection
  | selectionArray
  | bracket
  deriving DecidableEq, Repr, Inhabited

namespace TypeTag

def name : TypeTag → String
  | datum => "DATUM"
  | sequence => "SEQUENCE"
  | array => "ARRAY"
  | object => "OBJECT"
  | table => "TABLE"
  | selection => "SELECTION"
  | selectionArray => "SELECTION<ARRAY>"
  | bracket => "BRACKET"

def all : List TypeTag :=
  [datum, sequence, array, object, table, selection, selectionArray, bracket]

def isStream : TypeTag → Bool
  | table | selectionArray => true
  | _ => false

/-- Bound to a table: all of it, one row or some rows. -/
def isSelection : TypeTag → Bool
  | table | selection | selectionArray => true
  | _ => false

/-- The type of an action's result, from the action's declared type, the type of its receiver and
whether its first argument is a number. -/
def resolve (declared receiver : TypeTag) (numericKey : Bool) : TypeTag :=
  match declared with
  | table | selection | selectionArray => declared
  | sequence => if receiver.isStream then selectionArray else datum
  | bracket => if numericKey && receiver.isStream then selection else datum
  | _ => datum

end TypeTag

end TableQuery
