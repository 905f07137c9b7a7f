import TableQuery.Context

/-!
Arguments of actions. An argument that mentions the current row is deferred: the action evaluates
it for each row that it meets.
-/

namespace TableQuery

inductive Argument where
  | undefined
  | datum (v : Value)
  | deferred (run : Option Value → Eval Value)

namespace Argument

def isNull : Argument → Bool
  | datum .null => true
  | _ => false

def isNumber : Argument → Bool
  | datum (.number _) => true
  | _ => false

/-- The value of an argument without a row of its own. -/
def resolve : Argument → Eval Value
  | undefined => throw .undefinedArgument
  | datum v => pure v
  | deferred run => run none

/-- The value of an argument for one row; a datum does not look at it. -/
def evalRow (row : Value) : Argument → Eval Value
  | undefined => throw .undefinedArgument
  | datum v => pure v
  | deferred run => run (some row)

end Argument

namespace Act

def resolve (a : Argument) : Act Value := ofEval a.resolve

def evalRow (row : Value) (a : Argument) : Act Value := ofEval (a.evalRow row)

def resolveAll (args : List Argument) : Act (List Value) := args.mapM resolve

end Act

end TableQuery
