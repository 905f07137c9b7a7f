import TableQuery.Binary64.Decimal
import TableQuery.Token
import TableQuery.Value.Basic

namespace TableQuery

/-- An integer without sign or one of 64 bits with a sign stays an integer; minus zero, a larger
number and a number with a point or exponent are binary64, not always the nearest one. A number that
would be infinite is refused. -/
def Number.read? (spelling : String) : Option Number := do
  let cs := spelling.toList
  let numeral ← Numeral.ofChars? cs
  let magnitude := numeral.toDecimal.digits
  let n : Int := if numeral.negative then -(magnitude : Int) else magnitude
  let isWhole := cs.all fun c => c.isDigit || c == '-'
  let isZero := numeral.negative && magnitude == 0
  if isWhole && !isZero && -9223372036854775808 ≤ n && n < 18446744073709551616 then
    return .int n
  match Binary64.scale numeral.significand with
  | .finite x => return .real (if numeral.negative then x.neg else x)
  | _ => none

namespace Value

/-- An array or object that is not closed yet, with what it holds in reverse. -/
inductive Open where
  | array (items : List Value)
  | object (fields : List (String × Value)) (key : String)
  deriving Repr

inductive Reading where
  | value (stack : List Open)
  | valueOrEnd (stack : List Open)
  | keyOrEnd (stack : List Open)
  | key (fields : List (String × Value)) (stack : List Open)
  | colon (fields : List (String × Value)) (key : String) (stack : List Open)
  | done (v : Value) (stack : List Open)
  deriving Repr

/-- So many arrays and objects may be open at once. -/
def maxDepth : Nat := 127

def ofToken? : Token → Option Value
  | .word "null" => some null
  | .word "true" => some (bool true)
  | .word "false" => some (bool false)
  | .number spelling => (Number.read? spelling).map number
  | .quoted false body => (Quoted.decode body.toList).map fun cs => string (String.ofList cs)
  | _ => none

def keyOfToken? : Token → Option String
  | .quoted false body => (Quoted.decode body.toList).map String.ofList
  | _ => none

namespace Reading

def begin? (stack : List Open) : Token → Option Reading
  | .opening .square =>
    if stack.length < maxDepth then some (valueOrEnd (.array [] :: stack)) else none
  | .opening .curly => if stack.length < maxDepth then some (keyOrEnd stack) else none
  | token => (ofToken? token).map (done · stack)

def step? : Reading → Token → Option Reading
  | value stack, token => begin? stack token
  | valueOrEnd (.array [] :: stack), .closing .square => some (done (array []) stack)
  | valueOrEnd stack, token => begin? stack token
  | keyOrEnd stack, .closing .curly => some (done (object []) stack)
  | keyOrEnd stack, token => (keyOfToken? token).map (colon [] · stack)
  | key fields stack, token => (keyOfToken? token).map (colon fields · stack)
  | colon fields name stack, .colon => some (value (.object fields name :: stack))
  | done v (.array items :: stack), .comma => some (value (.array (v :: items) :: stack))
  | done v (.array items :: stack), .closing .square =>
    some (done (array (v :: items).reverse) stack)
  | done v (.object fields name :: stack), .comma => some (key ((name, v) :: fields) stack)
  | done v (.object fields name :: stack), .closing .curly =>
    some (done (object (Fields.ofList ((name, v) :: fields).reverse)) stack)
  | _, _ => none

def run? (reading : Reading) (tokens : List Token) : Option Reading := tokens.foldlM step? reading

end Reading

def ofTokens? (tokens : List Token) : Option Value :=
  match (Reading.value []).run? tokens with
  | some (.done v []) => some v
  | _ => none

/-- The value that a text stands for; blanks may surround every token. -/
def read? (text : String) : Option Value := (Token.scan? text).bind ofTokens?

end Value

end TableQuery
