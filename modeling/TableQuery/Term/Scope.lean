import TableQuery.Term.Basic

namespace TableQuery.Term

def writers : List String := ["insert", "update", "replace", "delete"]

mutual
def tables : Term → List String
  | table name => [name]
  | datum _ | row => []
  | array items => itemTables items
  | object fields => fieldTables fields
  | call _ receiver args => receiver.tables ++ itemTables args

def itemTables : List Term → List String
  | [] => []
  | t :: rest => t.tables ++ itemTables rest

def fieldTables : List (String × Term) → List String
  | [] => []
  | (_, t) :: rest => t.tables ++ fieldTables rest
end

mutual
def mutates : Term → Bool
  | table _ | datum _ | row => false
  | array items => anyMutates items
  | object fields => anyFieldMutates fields
  | call action receiver args => writers.contains action || receiver.mutates || anyMutates args

def anyMutates : List Term → Bool
  | [] => false
  | t :: rest => t.mutates || anyMutates rest

def anyFieldMutates : List (String × Term) → Bool
  | [] => false
  | (_, t) :: rest => t.mutates || anyFieldMutates rest
end

mutual
def datums : Term → List Value
  | datum v => [v]
  | table _ | row => []
  | array items => itemDatums items
  | object fields => fieldDatums fields
  | call _ receiver args => receiver.datums ++ itemDatums args

def itemDatums : List Term → List Value
  | [] => []
  | t :: rest => t.datums ++ itemDatums rest

def fieldDatums : List (String × Term) → List Value
  | [] => []
  | (_, t) :: rest => t.datums ++ fieldDatums rest
end

mutual
def actions : Term → List String
  | table _ | datum _ | row => []
  | array items => itemActions items
  | object fields => fieldActions fields
  | call action receiver args => action :: receiver.actions ++ itemActions args

def itemActions : List Term → List String
  | [] => []
  | t :: rest => t.actions ++ itemActions rest

def fieldActions : List (String × Term) → List String
  | [] => []
  | (_, t) :: rest => t.actions ++ fieldActions rest
end

end TableQuery.Term
