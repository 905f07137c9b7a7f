import TableQuery.Value.Basic

namespace TableQuery

namespace Value

mutual
/-- No object inside the value, itself included, has two fields of one name. -/
def distinctKeys : Value → Bool
  | array items => itemsDistinct items
  | object fields => fieldsDistinct fields
  | _ => true

def itemsDistinct : List Value → Bool
  | [] => true
  | item :: rest => distinctKeys item && itemsDistinct rest

def fieldsDistinct : List (String × Value) → Bool
  | [] => true
  | (key, value) :: rest =>
    !Fields.contains key rest && distinctKeys value && fieldsDistinct rest
end

end Value

end TableQuery
