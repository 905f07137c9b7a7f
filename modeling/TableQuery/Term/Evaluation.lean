import TableQuery.Action.Catalogue
import TableQuery.Term.Basic

/-!
Evaluation of terms. Each step gives a value, its type and what it is bound to; a call runs its
action in a context made of these. An argument that mentions the current row is deferred and later
sees the row that the action gives it, or else the row around the call.
-/

namespace TableQuery

structure Evaluated where
  value : Value
  type : TypeTag
  binding : Binding
  deriving Repr

namespace Evaluated

def ofValue (value : Value) : Evaluated := ⟨value, .datum, {}⟩

def ofTable (name : String) (rows : List Value) : Evaluated :=
  ⟨.array rows, .table, { table := some name }⟩

end Evaluated

/-- Runs an action on an evaluated receiver. The binding that the action leaves is kept only if
the result is bound to a table. -/
def Registry.apply (registry : Registry) (action : String) (receiver : Evaluated)
    (args : List Argument) (declared : TypeTag) : Eval Evaluated := ExceptT.mk do
  let state ← get
  let call := registry.invoke action receiver.value args
  let (result, c) := call.runFrom ⟨receiver.type, receiver.binding, state⟩
  set c.state
  let type := declared.resolve receiver.type ((args.head?).any Argument.isNumber)
  return result.map fun value => ⟨value, type, if type.isSelection then c.binding else {}⟩

namespace Term

variable (registry : Registry)

mutual
/-- The result of a term in a language with the given actions; a current row may be given. -/
def evaluateIn : Term → Option Value → Eval Evaluated
  | table name, _ => return .ofTable name (← Eval.rows name)
  | datum v, _ => return .ofValue v
  | row, some v => return .ofValue v
  | row, none => throw .unboundRow
  | array items, current => return .ofValue (.array (← evaluateItems items current))
  | object fields, current =>
    return .ofValue (.object (Fields.ofList (← evaluateFields fields current)))
  | call action receiver args, current => do
    let receiver ← evaluateIn receiver current
    let d ← ofExcept (registry.describe action)
    let args ← evaluateArguments args current
    registry.apply action receiver args d.type

def evaluateItems : List Term → Option Value → Eval (List Value)
  | [], _ => return []
  | t :: rest, current =>
    return (← evaluateIn t current).value :: (← evaluateItems rest current)

def evaluateFields : List (String × Term) → Option Value → Eval (List (String × Value))
  | [], _ => return []
  | (key, t) :: rest, current =>
    return (key, (← evaluateIn t current).value) :: (← evaluateFields rest current)

/-- An argument that mentions the current row is not evaluated yet. -/
def evaluateArguments : List Term → Option Value → Eval (List Argument)
  | [], _ => return []
  | t :: rest, current => do
    let arg ←
      if t.referencesRow then
        pure (.deferred fun inner => return (← evaluateIn t (inner.or current)).value)
      else pure (.datum (← evaluateIn t current).value)
    return arg :: (← evaluateArguments rest current)
end

def runIn (t : Term) (current : Option Value) : Eval Value :=
  return (← t.evaluateIn registry current).value

def evaluate (t : Term) (current : Option Value) : Eval Evaluated := t.evaluateIn .builtin current

def run (t : Term) (current : Option Value) : Eval Value := t.runIn .builtin current

end Term

end TableQuery
