import TableQuery.Term.Basic

namespace TableQuery.Term

/-- The actions that give a row of their own to an argument. -/
def rowBinders : List String := ["filter", "offsetsOf", "merge"]

mutual
/-- The term with a value for the current row; the arguments of an action that gives them a row of
their own stay as they are. -/
def withRow (v : Value) : Term → Term
  | table name => table name
  | datum d => datum d
  | row => datum v
  | array items => array (itemsWithRow v items)
  | object fields => object (fieldsWithRow v fields)
  | call action receiver args =>
    call action (receiver.withRow v)
      (if rowBinders.contains action then args else itemsWithRow v args)

def itemsWithRow (v : Value) : List Term → List Term
  | [] => []
  | t :: rest => t.withRow v :: itemsWithRow v rest

def fieldsWithRow (v : Value) : List (String × Term) → List (String × Term)
  | [] => []
  | (key, t) :: rest => (key, t.withRow v) :: fieldsWithRow v rest
end

end TableQuery.Term
