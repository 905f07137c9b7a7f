import TableQuery.Value.Basic

namespace TableQuery

inductive Term where
  | table (name : String)
  | datum (v : Value)
  | row
  | array (items : List Term)
  | object (fields : List (String × Term))
  | call (action : String) (receiver : Term) (args : List Term)
  deriving Repr, Inhabited

namespace Term

def datum? : Term → Option Value
  | datum v => some v
  | _ => none

/-- An array literal; a datum if all its items are. -/
def ofItems (items : List Term) : Term :=
  match items.mapM datum? with
  | some vs => datum (.array vs)
  | none => array items

/-- An object literal; a datum if all its fields are. -/
def ofFields (fields : List (String × Term)) : Term :=
  match fields.mapM fun (key, t) => t.datum?.map fun v => (key, v) with
  | some pairs => datum (.object (Fields.ofList pairs))
  | none => object fields

mutual
/-- The term with every literal that is made of datums folded, from the inside out. -/
def fold : Term → Term
  | table name => table name
  | datum v => datum v
  | row => row
  | array items => ofItems (foldItems items)
  | object fields => ofFields (foldFields fields)
  | call action receiver args => call action receiver.fold (foldItems args)

def foldItems : List Term → List Term
  | [] => []
  | t :: rest => t.fold :: foldItems rest

def foldFields : List (String × Term) → List (String × Term)
  | [] => []
  | (key, t) :: rest => (key, t.fold) :: foldFields rest
end

mutual
def referencesRow : Term → Bool
  | row => true
  | table _ | datum _ => false
  | array items => anyReferencesRow items
  | object fields => anyFieldReferencesRow fields
  | call _ receiver args => receiver.referencesRow || anyReferencesRow args

def anyReferencesRow : List Term → Bool
  | [] => false
  | t :: rest => t.referencesRow || anyReferencesRow rest

def anyFieldReferencesRow : List (String × Term) → Bool
  | [] => false
  | (_, t) :: rest => t.referencesRow || anyFieldReferencesRow rest
end

end Term

end TableQuery
