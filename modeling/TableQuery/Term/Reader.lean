import TableQuery.Error
import TableQuery.Term.Basic
import TableQuery.Value.Reader

namespace TableQuery

namespace Token

def string? : Token → Option String
  | quoted single body =>
    let cs := if single then Quoted.requote body.toList else body.toList
    (Quoted.decode cs).map String.ofList
  | _ => none

def fault? (token : Token) : Option ParseError :=
  match token with
  | number spelling => if (Number.read? spelling).isNone then some (.badNumber spelling) else none
  | quoted _ _ => if token.string?.isNone then some (.badString token.text) else none
  | _ => none

end Token

namespace Term

/-- A call, group or literal that is not closed yet, with what it holds in reverse. -/
inductive Open where
  | call (action : String) (receiver : Term) (args : List Term)
  | group
  | items (done : List Term)
  | fields (done : List (String × Term)) (key : String)
  deriving Repr

inductive Reading where
  | term (stack : List Open)
  | termOrEnd (stack : List Open)
  | done (t : Term) (stack : List Open)
  | method (receiver : Term) (stack : List Open)
  | arguments (receiver : Term) (action : String) (stack : List Open)
  | root (stack : List Open)
  | source (stack : List Open)
  | tableOpen (stack : List Open)
  | tableName (stack : List Open)
  | tableClose (name : String) (stack : List Open)
  | groupOpen (stack : List Open)
  | keyOrEnd (done : List (String × Term)) (stack : List Open)
  | colon (done : List (String × Term)) (key : String) (stack : List Open)
  deriving Repr

namespace Reading

def begin? (stack : List Open) (token : Token) : Option Reading :=
  match token with
  | .word "r" => some (root stack)
  | .word "null" => some (done (datum .null) stack)
  | .word "true" => some (done (datum (.bool true)) stack)
  | .word "false" => some (done (datum (.bool false)) stack)
  | .number spelling =>
    some (done (datum (.number ((Number.read? spelling).getD default))) stack)
  | .quoted _ _ => some (done (datum (.string (token.string?.getD ""))) stack)
  | .opening .square => some (termOrEnd (.items [] :: stack))
  | .opening .curly => some (keyOrEnd [] stack)
  | _ => none

/-- A token behind a complete term: a further call on it, or the next part of what is open. -/
def continue? (t : Term) : List Open → Token → Option Reading
  | stack, .dot => some (method t stack)
  | stack, .opening .round => some (termOrEnd (.call "bracket" t [] :: stack))
  | .call action receiver args :: stack, .comma =>
    some (termOrEnd (.call action receiver (t :: args) :: stack))
  | .call action receiver args :: stack, .closing .round =>
    some (done (call action receiver (t :: args).reverse) stack)
  | .group :: stack, .closing .round => some (done t stack)
  | .items ts :: stack, .comma => some (termOrEnd (.items (t :: ts) :: stack))
  | .items ts :: stack, .closing .square => some (done (ofItems (t :: ts).reverse) stack)
  | .fields ts key :: stack, .comma => some (keyOrEnd ((key, t) :: ts) stack)
  | .fields ts key :: stack, .closing .curly =>
    some (done (ofFields ((key, t) :: ts).reverse) stack)
  | _, _ => none

def step? : Reading → Token → Option Reading
  | term stack, token => begin? stack token
  | termOrEnd (.call action receiver args :: stack), .closing .round =>
    some (done (call action receiver args.reverse) stack)
  | termOrEnd (.items ts :: stack), .closing .square => some (done (ofItems ts.reverse) stack)
  | termOrEnd stack, token => begin? stack token
  | done t stack, token => continue? t stack token
  | method t stack, .word action => some (arguments t action stack)
  | arguments t action stack, .opening .round => some (termOrEnd (.call action t [] :: stack))
  | root stack, .dot => some (source stack)
  | source stack, .word "table" => some (tableOpen stack)
  | source stack, .word "expr" => some (groupOpen stack)
  | source stack, .word "row" => some (done row stack)
  | tableOpen stack, .opening .round => some (tableName stack)
  | tableName stack, .quoted single body =>
    some (tableClose ((Token.quoted single body).string?.getD "") stack)
  | tableClose name stack, .closing .round => some (done (table name) stack)
  | groupOpen stack, .opening .round => some (term (.group :: stack))
  | keyOrEnd ts stack, .closing .curly => some (done (ofFields ts.reverse) stack)
  | keyOrEnd ts stack, .word key => some (colon ts key stack)
  | keyOrEnd ts stack, .quoted single body =>
    some (colon ts ((Token.quoted single body).string?.getD "") stack)
  | colon ts key stack, .colon => some (term (.fields ts key :: stack))
  | _, _ => none

def run? (reading : Reading) (tokens : List Token) : Option Reading := tokens.foldlM step? reading

end Reading

/-- The term that tokens spell by the grammar; a faulty literal is taken as it comes. -/
def ofTokens? (tokens : List Token) : Option Term :=
  match (Reading.term []).run? tokens with
  | some (.done t []) => some t
  | _ => none

def parse (text : String) : Except Error Term :=
  match Token.scan? text with
  | none => .error (.parse .malformed)
  | some tokens =>
    match ofTokens? tokens with
    | none => .error (.parse .malformed)
    | some t =>
      match tokens.findSome? Token.fault? with
      | some fault => .error (.parse fault)
      | none => .ok t

end Term

end TableQuery
