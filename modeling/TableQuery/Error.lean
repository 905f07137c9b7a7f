import TableQuery.Arity
import TableQuery.Binary64.Decimal
import TableQuery.TypeTag
import TableQuery.Value.Basic

namespace TableQuery

inductive ParseError where
  | malformed
  | badString (spelling : String)
  | badNumber (spelling : String)
  deriving DecidableEq, Repr

/-- Why a value or a file is no set of tables. -/
inductive FixtureError where
  | notObject (found : Kind)
  | notArray (table : String)
  | notRows (table : String)
  | unreadable (path reason : String)
  | notJson (path : String)
  deriving DecidableEq, Repr

inductive Accepted where
  | arrayOrObject
  | bracketReceiver
  | bracketKey
  | array
  | addable
  | patch
  deriving DecidableEq, Repr

inductive Error where
  | argumentCount (action : String) (bound : Bound) (limit given : Nat)
  | emptyArity (action : String) (min max : Nat)
  | shapeMismatch (action : String) (arity : Arity)
  | kindMismatch (expected found : Kind)
  | unaccepted (accepted : Accepted) (found : Kind)
  | fractionalIndex (x : Scaled)
  | undefinedArgument
  | undefinedKey
  | replacementKind (found : Kind)
  | indexOutOfBounds
  | streamIndex
  | negativeLimit
  | unrepresentable (x : Binary64)
  | notSelected (wanted found : TypeTag)
  | illegalKey (primary : Bool)
  | nullKey
  | keyChanged
  | keyMissing
  | tableNotFound (table : String)
  | tableExists (table : String)
  | fixture (cause : FixtureError)
  | parse (cause : ParseError)
  | unknownAction (action : String)
  | unboundRow
  deriving DecidableEq, Repr

inductive Category where
  | arity
  | type
  | range
  | selection
  | identity
  | store
  | parse
  | evaluation
  deriving DecidableEq, Repr

def ParseError.message : ParseError → String
  | malformed => "Parse error"
  | badString spelling => s!"Parse error: Invalid string {spelling}"
  | badNumber spelling => s!"Parse error: Invalid number: {spelling}"

def FixtureError.message : FixtureError → String
  | notObject found => s!"expected an object of tables, found {found.name}"
  | notArray table => s!"table `{table}` is not an array"
  | notRows table => s!"table `{table}` contains a non-object row"
  | unreadable path reason => s!"cannot read {path}: {reason}"
  | notJson path => s!"{path} is not valid JSON"

def Accepted.words : Accepted → String
  | arrayOrObject => "ARRAY or OBJECT"
  | bracketReceiver => "ARRAY or OBJECT as first argument to `bracket`"
  | bracketKey => "NUMBER or STRING as second argument to `bracket`"
  | array => "ARRAY"
  | addable => "type ARRAY, NUMBER, or STRING"
  | patch => "type OBJECT"

namespace Error

def category : Error → Category
  | argumentCount .. | emptyArity .. | shapeMismatch .. => .arity
  | kindMismatch .. | unaccepted .. | fractionalIndex _ | undefinedArgument | undefinedKey
  | replacementKind _ => .type
  | indexOutOfBounds | streamIndex | negativeLimit | unrepresentable _ => .range
  | notSelected .. => .selection
  | illegalKey _ | nullKey | keyChanged | keyMissing => .identity
  | tableNotFound _ | tableExists _ | fixture _ => .store
  | parse _ => .parse
  | unknownAction _ | unboundRow => .evaluation

def message : Error → String
  | argumentCount action bound limit given =>
    let plural := if limit = 1 then "" else "s"
    s!"`{action}` takes {bound.words} {limit} argument{plural}, {given} provided"
  | emptyArity action min max => s!"Invalid arity range {min}..=Some({max}) for `{action}`"
  | shapeMismatch action arity =>
    s!"Implementation of `{action}` does not match its arity {arity.text}"
  | kindMismatch expected found => s!"Expected type {expected.name} but found {found.name}"
  | unaccepted accepted found => s!"Expected {accepted.words} but found {found.name}"
  | fractionalIndex x => s!"Expected type INTEGER but found {x.plainText}"
  | undefinedArgument => "Argument may not be `undefined`"
  | undefinedKey => "Argument 1 to get may not be `undefined`"
  | replacementKind found => s!"Inserted value must be an OBJECT (got {found.name})"
  | indexOutOfBounds => "Index out of bounds"
  | streamIndex => "Cannot use an index < -1 on a stream"
  | negativeLimit => "LIMIT takes a non-negative argument"
  | unrepresentable x => s!"Number not representable: {x.plainText}"
  | notSelected wanted found => s!"Expected type {wanted.name} but found {found.name}"
  | illegalKey primary =>
    let label := if primary then "Primary" else "Secondary"
    s!"{label} keys must be either a number, string, bool, pseudotype or array"
  | nullKey => "Keys cannot be NULL"
  | keyChanged => "Primary key `id` cannot be changed"
  | keyMissing => "Inserted object must have primary key `id`"
  | tableNotFound table => s!"Table `{table}` does not exist"
  | tableExists table => s!"Table `{table}` already exists"
  | fixture cause => s!"Invalid fixture: {cause.message}"
  | parse cause => cause.message
  | unknownAction action => s!"Unknown action `{action}`"
  | unboundRow => "Evaluation error: `r.row` is only valid inside a row expression"

end Error

end TableQuery
