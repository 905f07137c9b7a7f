import TableQuery.Action.Registry

namespace TableQuery.Comparison

open Act

/-- Whether a relation holds between each value of a chain and the next. -/
def chain (holds : Ordering → Bool) : Value → List Value → Bool
  | _, [] => true
  | previous, next :: rest => holds (previous.compare next) && chain holds next rest

def allEqual (receiver : Value) (args : List Value) : Bool := args.all receiver.equals

def test (holds : Value → List Value → Bool) (receiver : Value) (args : List Argument) :
    Act Value := do
  return .bool (holds receiver (← resolveAll args))

def entries : List Entry := [
  ⟨"eq", .oneOrMore, .datum, .variadic (test allEqual)⟩,
  ⟨"ne", .oneOrMore, .datum, .variadic (test fun v args => !allEqual v args)⟩,
  ⟨"lt", .oneOrMore, .datum, .variadic (test (chain (· == .lt)))⟩,
  ⟨"le", .oneOrMore, .datum, .variadic (test (chain (· != .gt)))⟩,
  ⟨"gt", .oneOrMore, .datum, .variadic (test (chain (· == .gt)))⟩,
  ⟨"ge", .oneOrMore, .datum, .variadic (test (chain (· != .lt)))⟩]

end TableQuery.Comparison
