import TableQuery.Action.Arithmetic
import TableQuery.Action.Comparison
import TableQuery.Action.Mutation
import TableQuery.Action.Range

namespace TableQuery

def typeOf (v : Value) : Act Value := return .string v.kind.name

def catalogue : List Entry :=
  ⟨"typeOf", .none, .datum, .nullary typeOf⟩ :: Arithmetic.entries ++ Comparison.entries ++
    Access.entries ++ Range.entries ++ Selection.entries ++ Mutation.entries

def Registry.builtin : Registry := Registry.empty.registerAll catalogue

end TableQuery
