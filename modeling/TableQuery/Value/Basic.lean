import TableQuery.Assoc
import TableQuery.Binary64.Basic

/-!
Values: what rows hold and queries return. An object lists its fields in the order in which they
were first set; numbers are integers or finite binary64 numbers.
-/

namespace TableQuery

/-- A number keeps the form it was written in: `1` is an integer and `1.0` is not. -/
inductive Number where
  | int (n : Int)
  | real (x : Scaled)
  deriving DecidableEq, Repr, Inhabited

/-- The binary64 number that stands for a number in arithmetic and comparison. -/
def Number.toScaled : Number → Scaled
  | .int n => .ofInt n
  | .real x => x

def Number.toBinary64 (n : Number) : Binary64 := .finite n.toScaled

inductive Value where
  | null
  | bool (b : Bool)
  | number (n : Number)
  | string (s : String)
  | array (items : List Value)
  | object (fields : List (String × Value))
  deriving Repr, Inhabited

abbrev Fields := List (String × Value)

/-- The kinds of value, in the order in which values of different kinds are sorted. -/
inductive Kind where
  | array
  | bool
  | null
  | number
  | object
  | string
  deriving DecidableEq, Repr, Inhabited

namespace Kind

def rank : Kind → Nat
  | .array => 0
  | .bool => 1
  | .null => 2
  | .number => 3
  | .object => 4
  | .string => 5

def name : Kind → String
  | .array => "ARRAY"
  | .bool => "BOOL"
  | .null => "NULL"
  | .number => "NUMBER"
  | .object => "OBJECT"
  | .string => "STRING"

end Kind

namespace Value

def kind : Value → Kind
  | null => .null
  | bool _ => .bool
  | number _ => .number
  | string _ => .string
  | array _ => .array
  | object _ => .object

def ofNat (n : Nat) : Value := number (.int n)

def isNull : Value → Bool
  | null => true
  | _ => false

def isObject : Value → Bool
  | object _ => true
  | _ => false

def isTruthy : Value → Bool
  | null => false
  | bool b => b
  | _ => true

def isValidKey : Value → Bool
  | null | object _ => false
  | _ => true

end Value

namespace Fields

def get? (name : String) (fields : Fields) : Option Value := fields.lookup name

def contains (name : String) (fields : Fields) : Bool := (get? name fields).isSome

def keys (fields : Fields) : List String := fields.map Prod.fst

/-- Sets a field: a known name keeps its place, a new one comes last. -/
def set (name : String) (value : Value) (fields : Fields) : Fields := Assoc.set name value fields

/-- The fields of a list in which a later value of a name takes over the place of the first. -/
def ofList (pairs : List (String × Value)) : Fields :=
  pairs.foldl (fun fields pair => set pair.1 pair.2 fields) []

end Fields

/-- The field of an object; no other value has fields. -/
def Value.field? (name : String) : Value → Option Value
  | .object fields => Fields.get? name fields
  | _ => none

def primaryKey : String := "id"

def Value.id? (row : Value) : Option Value := row.field? primaryKey

end TableQuery
