import TableQuery.Action.Registry
import TableQuery.Value.Shape

namespace TableQuery.Arithmetic

open Act

def foldNumbers (op : Binary64 → Binary64 → Binary64) (receiver : Value) (args : List Value) :
    Except Error Value := do
  let first := .finite (← receiver.asScaled)
  let total ← args.foldlM (fun total arg => return op total (.finite (← arg.asScaled))) first
  total.toValue

/-- Joins the items of arrays behind those of the receiver. -/
def joinItems (args : List Value) : List Value :=
  args.flatMap fun
    | .array items => items
    | _ => []

def joinText (args : List Value) : String :=
  String.join (args.map fun
    | .string s => s
    | _ => "")

/-- The sum of a receiver and arguments of its kind. -/
def sum (receiver : Value) (args : List Value) : Except Error Value := do
  args.forM (Value.expect receiver.kind)
  match receiver with
  | .array items => return .array (items ++ joinItems args)
  | .string s => return .string (s ++ joinText args)
  | other => foldNumbers .add other args

/-- What can be added to is known before the arguments are evaluated. -/
def add (receiver : Value) (args : List Argument) : Act Value := do
  match receiver with
  | .array _ | .number _ | .string _ => ofExcept (sum receiver (← resolveAll args))
  | other => throw (.unaccepted .addable other.kind)

def numeric (op : Binary64 → Binary64 → Binary64) (receiver : Value) (args : List Argument) :
    Act Value := do
  ofExcept (foldNumbers op receiver (← resolveAll args))

def entries : List Entry := [
  ⟨"add", .oneOrMore, .datum, .variadic add⟩,
  ⟨"sub", .oneOrMore, .datum, .variadic (numeric .sub)⟩,
  ⟨"mul", .oneOrMore, .datum, .variadic (numeric .mul)⟩,
  ⟨"div", .oneOrMore, .datum, .variadic (numeric .div)⟩]

end TableQuery.Arithmetic
