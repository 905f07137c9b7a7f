import TableQuery.Spelling
import TableQuery.Term.Basic
import TableQuery.Value.Keys

namespace TableQuery.Term

mutual
/-- Whether a term can be what a text reads as: every literal has a part that is no datum, the names
of actions are words and the fields of a datum have different names. -/
def isNormal : Term → Bool
  | table _ | row => true
  | datum v => v.distinctKeys
  | array items => !items.all (fun t => t.datum?.isSome) && itemsNormal items
  | object fields => !fields.all (fun pair => pair.2.datum?.isSome) && fieldsNormal fields
  | call action receiver args => isIdentifier action && isNormal receiver && itemsNormal args

def itemsNormal : List Term → Bool
  | [] => true
  | t :: rest => isNormal t && itemsNormal rest

def fieldsNormal : List (String × Term) → Bool
  | [] => true
  | (_, t) :: rest => isNormal t && fieldsNormal rest
end

mutual
def Renders : Term → List Token → Prop
  | table name, ts => ∃ token, token.IsString name ∧
      ts = [.word "r", .dot, .word "table", .opening .round, token, .closing .round]
  | datum v, ts => v.Spelled ts ∨ ∃ piece, v.Spelled piece ∧
      ts = .word "r" :: .dot :: .word "expr" :: .opening .round :: piece ++ [.closing .round]
  | row, ts => ts = [.word "r", .dot, .word "row"]
  | array items, ts => ∃ pieces trailing, ItemsRender items pieces ∧
      ts = .opening .square :: commaSeparated trailing pieces ++ [.closing .square]
  | object fields, ts => ∃ pieces trailing, FieldsRender fields pieces ∧
      ts = .opening .curly :: commaSeparated trailing pieces ++ [.closing .curly]
  | call action receiver args, ts => ∃ front pieces trailing, Renders receiver front ∧
      ItemsRender args pieces ∧
      let arguments :=
        .opening .round :: commaSeparated trailing pieces ++ [.closing .round]
      (ts = front ++ .dot :: .word action :: arguments ∨
        action = "bracket" ∧ ts = front ++ arguments)

def ItemsRender : List Term → List (List Token) → Prop
  | [], pieces => pieces = []
  | t :: rest, pieces => ∃ first others, Renders t first ∧ ItemsRender rest others ∧
      pieces = first :: others

def FieldsRender : List (String × Term) → List (List Token) → Prop
  | [], pieces => pieces = []
  | (key, t) :: rest, pieces => ∃ token first others, token.IsString key ∧ Renders t first ∧
      FieldsRender rest others ∧ pieces = (token :: .colon :: first) :: others
end

end TableQuery.Term
