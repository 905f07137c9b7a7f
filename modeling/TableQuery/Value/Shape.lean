import TableQuery.Error
import TableQuery.Value.Order

namespace TableQuery

namespace Value

def expect (kind : Kind) (v : Value) : Except Error Unit :=
  if v.kind = kind then .ok () else .error (.kindMismatch kind v.kind)

def asString : Value → Except Error String
  | string s => .ok s
  | v => .error (.kindMismatch .string v.kind)

def asScaled : Value → Except Error Scaled
  | number n => .ok n.toScaled
  | v => .error (.kindMismatch .number v.kind)

def asFields : Value → Except Error Fields
  | object fields => .ok fields
  | v => .error (.kindMismatch .object v.kind)

mutual
/-- The items of a list with every nested array laid open. -/
def flatten : List Value → List Value
  | [] => []
  | item :: rest => flattenItem item ++ flatten rest

def flattenItem : Value → List Value
  | array items => flatten items
  | v => [v]
end

/-- The strings of a list of values with every nested array laid open. -/
def fieldNames (vs : List Value) : Except Error (List String) := (flatten vs).mapM asString

end Value

/-- A finite number as a value: whole numbers up to `2^53` are integers. -/
def Binary64.toValue (x : Binary64) : Except Error Value :=
  match x with
  | .finite y =>
    if y.isWhole && y.units ≤ Nat.pow 2 53 * unitsPerOne then .ok (.number (.int y.truncate))
    else .ok (.number (.real y))
  | _ => .error (.unrepresentable x)

namespace Fields

def field (name : String) (fields : Fields) : Value := (get? name fields).getD .null

def hasAll (names : List String) (fields : Fields) : Bool :=
  names.all fun name => contains name fields

/-- The named fields, in the order in which they are named. -/
def pluck (names : List String) (fields : Fields) : Fields :=
  ofList (names.filterMap fun name => (get? name fields).map fun value => (name, value))

/-- The fields that are not named, in their own order. -/
def without (names : List String) (fields : Fields) : Fields :=
  fields.filter fun pair => !names.contains pair.1

mutual
/-- The value that a merge leaves under a key: two objects merge, anything else is replaced. -/
def mergeValue (old : Option Value) : Value → Value
  | .object incoming =>
    match old with
    | some (.object existing) => .object (merge existing incoming)
    | _ => .object incoming
  | v => v

/-- Deep merge: the fields of the second list are set on the first, one by one. -/
def merge (fields : Fields) : List (String × Value) → Fields
  | [] => fields
  | (key, value) :: rest => merge (set key (mergeValue (get? key fields) value) fields) rest
end

/-- Merges a patch into a row and tells whether the row changed; none if the patch would change
the primary key. -/
def update? (patch row : Fields) : Option (Fields × Bool) :=
  let updated := merge row patch
  let result := (updated, !Value.equals (.object row) (.object updated))
  match get? primaryKey row, get? primaryKey patch with
  | some old, some new => if Value.equals old new then some result else none
  | _, _ => some result

end Fields

/-- Deep merge of values: anything but two objects is replaced by the second. -/
def Value.merge (old new : Value) : Value := Fields.mergeValue (some old) new

end TableQuery
