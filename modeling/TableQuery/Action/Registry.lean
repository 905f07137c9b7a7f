import TableQuery.Action.Argument

namespace TableQuery

inductive Implementation where
  | nullary (run : Value → Act Value)
  | unary (run : Value → Argument → Act Value)
  | binary (run : Value → Argument → Argument → Act Value)
  | variadic (run : Value → List Argument → Act Value)

namespace Implementation

/-- A maximum of 0, 1 or 2 asks for that many arguments by position; any other for a list. -/
def fits (arity : Arity) : Implementation → Bool
  | nullary _ => arity.max == some 0
  | unary _ => arity.max == some 1
  | binary _ => arity.max == some 2
  | variadic _ => arity.max != some 0 && arity.max != some 1 && arity.max != some 2

/-- Calls an implementation; an argument that is not given is undefined and one too many is
dropped. -/
def call (receiver : Value) (args : List Argument) : Implementation → Act Value
  | nullary run => run receiver
  | unary run => run receiver (args[0]?.getD .undefined)
  | binary run => run receiver (args[0]?.getD .undefined) (args[1]?.getD .undefined)
  | variadic run => run receiver args

end Implementation

/-- Fails, naming the bound that is broken, unless the count lies in the range. -/
def Arity.check (action : String) (arity : Arity) (count : Nat) : Except Error Unit :=
  if arity.accepts count then .ok ()
  else
    let (bound, limit) := arity.broken count
    .error (.argumentCount action bound limit count)

structure ArityTable where
  ranges : List (String × Arity)
  deriving Repr

namespace ArityTable

def empty : ArityTable := ⟨[]⟩

/-- A range without counts is refused. -/
def register (action : String) (arity : Arity) (t : ArityTable) : Except Error ArityTable :=
  match arity.isRange, arity.max with
  | false, some max => .error (.emptyArity action arity.min max)
  | _, _ => .ok ⟨(action, arity) :: t.ranges⟩

def lookup (action : String) (t : ArityTable) : Option Arity := t.ranges.lookup action

def validate (action : String) (count : Nat) (t : ArityTable) : Except Error Unit :=
  match t.lookup action with
  | some arity => arity.check action count
  | none => .error (.unknownAction action)

end ArityTable

structure Descriptor where
  arity : Arity
  type : TypeTag
  implementation : Implementation

structure Entry where
  name : String
  arity : Arity
  type : TypeTag
  implementation : Implementation

structure Registry where
  arities : ArityTable
  actions : List (String × Descriptor)

def fit (action : String) (arity : Arity) (implementation : Implementation) :
    Except Error Implementation :=
  if implementation.fits arity then .ok implementation else .error (.shapeMismatch action arity)

namespace Registry

def empty : Registry := ⟨.empty, []⟩

/-- Registers an action. Its arity is entered first and stays if the shape does not fit. -/
def register (e : Entry) (r : Registry) : Registry × Except Error Unit :=
  match r.arities.register e.name e.arity with
  | .error error => (r, .error error)
  | .ok arities =>
    match fit e.name e.arity e.implementation with
    | .error error => (⟨arities, r.actions⟩, .error error)
    | .ok implementation =>
      (⟨arities, (e.name, ⟨e.arity, e.type, implementation⟩) :: r.actions⟩, .ok ())

def registerAll (r : Registry) (entries : List Entry) : Registry :=
  entries.foldl (fun r e => (r.register e).1) r

def describe (action : String) (r : Registry) : Except Error Descriptor :=
  match r.actions.lookup action with
  | some d => .ok d
  | none => .error (.unknownAction action)

def invoke (action : String) (receiver : Value) (args : List Argument) (r : Registry) :
    Act Value := do
  let d ← ofExcept (r.describe action)
  ofExcept (r.arities.validate action args.length)
  d.implementation.call receiver args

def names (r : Registry) : List String :=
  (r.actions.map Prod.fst).eraseDups.mergeSort fun a b => decide (a ≤ b)

end Registry

end TableQuery
