import TableQuery.Value.Basic

namespace TableQuery

structure Report where
  errors : Option Nat := none
  inserted : Option Nat := none
  replaced : Option Nat := none
  unchanged : Option Nat := none
  deleted : Option Nat := none
  skipped : Option Nat := none
  firstError : Option String := none
  generatedKeys : Option (List String) := none
  deriving DecidableEq, Repr, Inhabited

namespace Report

/-- A row was deleted, or there was none to delete. -/
def ofDeleted (deleted skipped : Nat) : Report :=
  { deleted := some deleted, skipped := some skipped }

def ofDeletedRows (deleted : Nat) : Report := { deleted := some deleted }

def ofUpdated (replaced unchanged : Nat) : Report :=
  { replaced := some replaced, unchanged := some unchanged }

def ofSkipped : Report := { replaced := some 0, skipped := some 1 }

/-- Counts a row that failed; the first message is kept. -/
def recordError (message : String) (r : Report) : Report :=
  { r with errors := some (r.errors.getD 0 + 1), firstError := r.firstError.or (some message) }

def toValue (r : Report) : Value :=
  let count (name : String) (n : Option Nat) : Fields := n.toList.map fun n => (name, .ofNat n)
  .object (count "errors" r.errors ++ count "inserted" r.inserted ++ count "replaced" r.replaced ++
    count "unchanged" r.unchanged ++ count "deleted" r.deleted ++ count "skipped" r.skipped ++
    r.firstError.toList.map (fun message => ("first_error", .string message)) ++
    r.generatedKeys.toList.map fun keys => ("generated_keys", .array (keys.map .string)))

end Report

end TableQuery
