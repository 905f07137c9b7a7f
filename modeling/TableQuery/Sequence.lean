import TableQuery.Value.Shape

namespace TableQuery

def Scaled.toInt64 (x : Scaled) : Int :=
  let n := x.truncate
  if n < -9223372036854775808 then -9223372036854775808
  else if 9223372036854775807 < n then 9223372036854775807 else n

namespace Sequence

/-- The position that an index means; a negative one counts from the end. -/
def fromEnd (length : Nat) (index : Int) : Int := if index < 0 then length + index else index

def nth (items : List Value) (index : Int) : Except Error Value :=
  let position := fromEnd items.length index
  if position < 0 then .error .indexOutOfBounds
  else match items[position.toNat]? with
    | some item => .ok item
    | none => .error .indexOutOfBounds

def getField (name : String) (rows : List Value) : Except Error (List Value) := do
  return (← rows.mapM Value.asFields).filterMap (Fields.get? name)

def hasFields (names : List String) (rows : List Value) : Except Error (List Value) := do
  return ((← rows.mapM Value.asFields).filter (Fields.hasAll names)).map .object

def pluck (names : List String) (rows : List Value) : Except Error (List Value) := do
  return (← rows.mapM Value.asFields).map fun row => .object (Fields.pluck names row)

def without (names : List String) (rows : List Value) : Except Error (List Value) := do
  return (← rows.mapM Value.asFields).map fun row => .object (Fields.without names row)

/-- The ends of a slice: whether the start is left out and whether the end is taken in. -/
structure SliceBounds where
  leftOpen : Bool
  rightClosed : Bool
  deriving DecidableEq, Repr

def SliceBounds.ofFields (options : Fields) : SliceBounds :=
  let has (name word : String) : Bool :=
    match Fields.get? name options with
    | some (.string s) => s == word
    | _ => false
  ⟨has "leftBound" "open", has "rightBound" "closed"⟩

/-- Takes off a last argument that is an object: the options. -/
def splitOptions (args : List Value) : List Value × Option Fields :=
  match args.getLast? with
  | some (.object options) => (args.dropLast, some options)
  | _ => (args, none)

/-- The position between `0` and the length that an index means. -/
def clamp (length : Nat) (index : Int) : Nat := min length (fromEnd length index).toNat

/-- The next integer of 64 bits; the least one comes after the greatest. -/
def next64 (n : Int) : Int := (n + 1).bmod 18446744073709551616

/-- The position from which a slice takes items. A bound is moved by one before a negative index is
counted from the end. -/
def SliceBounds.first (bounds : SliceBounds) (length : Nat) (start : Int) : Nat :=
  clamp length (if bounds.leftOpen then next64 start else start)

def SliceBounds.last (bounds : SliceBounds) (length : Nat) : Option Int → Nat
  | some stop => clamp length (if bounds.rightClosed then next64 stop else stop)
  -- behind the last item there is nothing to take in
  | none => length

def sliceBetween (bounds : SliceBounds) (start : Int) (stop : Option Int) (items : List Value) :
    List Value :=
  (items.take (bounds.last items.length stop)).drop (bounds.first items.length start)

/-- Arguments are the start, an end that may be missing or `null`, and options. -/
def slice (items args : List Value) : Except Error (List Value) := do
  let (args, options) := splitOptions args
  let bounds := SliceBounds.ofFields (options.getD [])
  let start ← match args with
    | [] => .error (.kindMismatch .number .null)
    | first :: _ => first.asScaled
  let stop ← match args with
    | [] | [_] | _ :: .null :: _ => pure none
    | _ :: second :: _ => (fun x => some x.toInt64) <$> second.asScaled
  return sliceBetween bounds start.toInt64 stop items

def offsetsOf (needle : Value) (items : List Value) : List Nat :=
  (items.zipIdx.filter fun (item, _) => Value.equals item needle).map Prod.snd

/-- The value by which a row is sorted; a missing field is `null`. -/
def sortKey (name : String) (row : Value) : Value := (row.field? name).getD .null

/-- Sorts rows by a field; rows with equal fields keep their order. -/
def orderBy (name : String) (rows : List Value) : Except Error (List Value) := do
  let _ ← rows.mapM Value.asFields
  return rows.mergeSort fun a b => (sortKey name a).compare (sortKey name b) != .gt

end Sequence

end TableQuery
