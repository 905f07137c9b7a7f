import TableQuery.Action.Selection
import TableQuery.Report

/-!
Insertion, update, replacement and deletion. Rows handed to a mutation are copies, so each write
first finds the live row again by identity.
-/

namespace TableQuery.Mutation

open Act

def hasKey (key : Value) (rows : List Value) : Bool :=
  rows.any fun row => row.id?.any fun id => id.strictEquals key

def duplicateKey : String := "Duplicate primary key `id`"

/-- A row to insert: an object whose key, if it has one, is legal. -/
def checkRow (row : Value) : Except Error Fields := do
  let fields ← row.asFields
  match Fields.get? primaryKey fields with
  | some id => Selection.checkKey true id
  | none => pure ()
  return fields

structure Inserted where
  rows : List Value
  errors : Nat
  keys : List String

/-- Appends a row unless its key is taken; a row without a key gets a fresh one. -/
def insertRow (done : Inserted) (row : Fields) : Act Inserted := do
  match Fields.get? primaryKey row with
  | some id =>
    if hasKey id done.rows then return { done with errors := done.errors + 1 }
    else return { done with rows := done.rows ++ [.object row] }
  | none =>
    let key ← freshKey done.rows
    let row := Fields.set primaryKey (.string key) row
    return { done with rows := done.rows ++ [.object row], keys := done.keys ++ [key] }

def insertReport (total : Nat) (done : Inserted) : Report where
  errors := some done.errors
  inserted := some (total - done.errors)
  firstError := if done.errors = 0 then none else some duplicateKey
  generatedKeys := if done.keys.isEmpty then none else some done.keys

/-- Inserts a row or the rows of an array. All are checked before the first is written. -/
def insert (_ : Value) (rows _ : Argument) : Act Value := do
  ask (Context.expectType .table)
  let rows := match ← resolve rows with
    | .array rows => rows
    | row => [row]
  let rows ← ofExcept (rows.mapM checkRow)
  let live ← ask Context.rows
  let done ← rows.foldlM insertRow ⟨live, 0, []⟩
  setRows done.rows
  return (insertReport rows.length done).toValue

def asPatch : Value → Except Error Fields
  | .object patch => .ok patch
  | v => .error (.unaccepted .patch v.kind)

/-- Merges a patch into the live row at a position and tells whether the row changed; none if the
patch would change the key. -/
def applyPatch (index : Nat) (patch : Fields) : Act (Option Bool) := do
  let rows ← ask Context.rows
  match rows[index]? with
  | some (.object row) =>
    match Fields.update? patch row with
    | none => return none
    | some (row, changed) =>
      setRows (rows.set index (.object row))
      return some changed
  | _ => return some false

def updateRow (row : Value) (patch : Argument) : Act Report := do
  ask (Context.expectType .selection)
  if row.isNull then return .ofSkipped
  let patch ← ofExcept (asPatch (← evalRow row patch))
  match ← ask (Context.locate row) with
  | none => return .ofSkipped
  | some index =>
    match ← applyPatch index patch with
    | some true => return .ofUpdated 1 0
    | some false => return .ofUpdated 0 1
    | none => throw .keyChanged

/-- How the rows of an update or a replacement fared. -/
structure Tally where
  replaced : Nat
  unchanged : Nat
  errors : Nat

def Tally.report (t : Tally) : Report :=
  { Report.ofUpdated t.replaced t.unchanged with
    errors := some t.errors
    firstError := if t.errors = 0 then none else some Error.keyChanged.message }

/-- Patches one of many rows. A row that is gone counts as unchanged and a patch that would change
the key as an error. -/
def patchRow (done : Tally) (row : Value) (patch : Fields) : Act Tally := do
  match ← ask (Context.locate row) with
  | none => return { done with unchanged := done.unchanged + 1 }
  | some index =>
    match ← applyPatch index patch with
    | some true => return { done with replaced := done.replaced + 1 }
    | some false => return { done with unchanged := done.unchanged + 1 }
    | none => return { done with errors := done.errors + 1 }

/-- Updates some rows. All patches are built before the first row is written. -/
def updateRows (rows : List Value) (patch : Argument) : Act Report := do
  ask Context.expectSelection
  if patch.isNull then return Tally.report ⟨0, rows.length, 0⟩
  let patches ← rows.mapM fun row => do ofExcept (asPatch (← evalRow row patch))
  let tally ← (rows.zip patches).foldlM (fun done (row, patch) => patchRow done row patch) ⟨0, 0, 0⟩
  return tally.report

def update (receiver : Value) (patch _ : Argument) : Act Value := do
  match receiver with
  | .array rows => return (← updateRows rows patch).toValue
  | row => return (← updateRow row patch).toValue

def deleteRow (row : Value) : Act Report := do
  if row.isNull then return .ofDeleted 0 1
  ask (Context.expectType .selection)
  match ← ask (Context.locate row) with
  | none => return .ofDeleted 0 1
  | some index =>
    setRows ((← ask Context.rows).eraseIdx index)
    setRowIndex none
    return .ofDeleted 1 0

def remaining (deleted rows : List Value) : List Value :=
  rows.filter fun live => !deleted.any live.sameRow

/-- Empties the bound table, or deletes the rows of a row set. -/
def deleteRows (rows : List Value) : Act Report := do
  if (← get).type = .table then
    let live ← ask Context.rows
    setRows []
    return .ofDeletedRows live.length
  ask (Context.expectType .selectionArray)
  if rows.isEmpty then return .ofDeletedRows 0
  let live ← ask Context.rows
  let kept := remaining rows live
  setRows kept
  return .ofDeletedRows (live.length - kept.length)

def delete (receiver : Value) : Act Value := do
  match receiver with
  | .array rows => return (← deleteRows rows).toValue
  | row => return (← deleteRow row).toValue

/-- A replacement is an object with a primary key, whatever the key is. -/
def replacementKey (v : Value) : Except Error Value :=
  match v with
  | .object fields =>
    match Fields.get? primaryKey fields with
    | some id => .ok id
    | none => .error .keyMissing
  | _ => .error (.replacementKind v.kind)

/-- Puts a replacement for a row that is not there at the end of the table. -/
def replaceMissing (value : Argument) : Act Report := do
  let row ← resolve value
  let key ← ofExcept (replacementKey row)
  let live ← ask Context.rows
  if hasKey key live then
    return { errors := some 1, inserted := some 0, firstError := some duplicateKey }
  setRows (live ++ [row])
  return { inserted := some 1 }

/-- Replaces one row by the value that it gives, which has to keep its key. A row that is not found
again counts nowhere. -/
def replaceRow (value : Argument) (done : Tally) (row : Value) : Act Tally := do
  let new ← evalRow row value
  let key ← ofExcept (replacementKey new)
  if !row.id?.any fun old => old.strictEquals key then
    return { done with errors := done.errors + 1 }
  if row.equals new then return { done with unchanged := done.unchanged + 1 }
  match ← ask (Context.locate row) with
  | none => return done
  | some index =>
    setRows ((← ask Context.rows).set index new)
    return { done with replaced := done.replaced + 1 }

/-- Replaces rows one after the other: a later value sees the rows written before. -/
def replaceRows (rows : List Value) (value : Argument) : Act Report := do
  return (← rows.foldlM (replaceRow value) ⟨0, 0, 0⟩).report

/-- Replaces the selected rows. Replacement by `null` deletes them. -/
def replace (receiver : Value) (value _ : Argument) : Act Value := do
  ask Context.expectSelection
  let report ←
    if value.isNull then
      match receiver with
      | .null => pure (.ofDeleted 0 1)
      | .array rows => deleteRows rows
      | row => deleteRow row
    else match receiver with
      | .null => replaceMissing value
      | .array rows => replaceRows rows value
      | row => replaceRows [row] value
  return report.toValue

def entries : List Entry := [
  ⟨"insert", .oneOrTwo, .datum, .binary insert⟩,
  ⟨"update", .oneOrTwo, .datum, .binary update⟩,
  ⟨"replace", .oneOrTwo, .datum, .binary replace⟩,
  ⟨"delete", .none, .datum, .nullary delete⟩]

end TableQuery.Mutation
