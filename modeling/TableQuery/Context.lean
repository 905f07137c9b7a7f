import TableQuery.State
import TableQuery.Value.Order

/-!
The context of an action: the type of its receiver, the table and row that the receiver is bound
to, and the state. `locate` finds a bound row again by identity.
-/

namespace TableQuery

/-- Which table a value was taken from, and which row it is. -/
structure Binding where
  table : Option String := none
  rowIndex : Option Nat := none
  rowId : Option Value := none
  deriving Repr, Inhabited

structure Context where
  type : TypeTag
  binding : Binding
  state : State

namespace Context

def tableName (c : Context) : Except Error String :=
  match c.binding.table with
  | some name => .ok name
  | none => .error (.notSelected .table c.type)

def rows (c : Context) : Except Error (List Value) := do c.state.store.rows (← c.tableName)

/-- Fails unless the receiver is a table, a row or a row set. -/
def expectSelection (c : Context) : Except Error Unit :=
  if c.type.isSelection then .ok () else .error (.notSelected .selection c.type)

def expectType (type : TypeTag) (c : Context) : Except Error Unit :=
  if c.type = type then .ok ()
  else .error (.notSelected (if type = .table then .table else .selection) c.type)

/-- The position of a row: the given one if the same row is still there, else the first of the
same row. -/
def position (index : Option Nat) (row : Value) (rows : List Value) : Option Nat :=
  let here := index.filter fun i => (rows[i]?).any fun live => live.sameRow row
  here.or (rows.findIdx? fun live => live.sameRow row)

def locate (row : Value) (c : Context) : Except Error (Option Nat) := do
  return position c.binding.rowIndex row (← c.rows)

end Context

/-- A computation in a context that may fail; the context after a failure is kept. -/
abbrev Act := ExceptT Error (StateM Context)

namespace Act

def runFrom {α : Type} (x : Act α) (c : Context) : Except Error α × Context :=
  StateT.run (ExceptT.run x) c

variable {α β : Type}

@[simp] theorem runFrom_pure (a : α) (c : Context) : (pure a : Act α).runFrom c = (.ok a, c) := rfl

@[simp] theorem runFrom_throw (e : Error) (c : Context) :
    (throw e : Act α).runFrom c = (.error e, c) := rfl

@[simp] theorem runFrom_ofExcept (x : Except Error α) (c : Context) :
    (ofExcept x : Act α).runFrom c = (x, c) := by
  cases x <;> rfl

/-- A computation goes on in the context that its first part leaves; a failure ends it. -/
theorem runFrom_bind (x : Act α) (f : α → Act β) (c : Context) :
    (x >>= f).runFrom c = match x.runFrom c with
      | (.ok a, next) => (f a).runFrom next
      | (.error e, next) => (.error e, next) := by
  change StateT.run (ExceptT.bindCont f (x.runFrom c).1) (x.runFrom c).2 = _
  rcases x.runFrom c with ⟨_ | _, _⟩ <;> rfl

@[simp] theorem runFrom_get (c : Context) : (get : Act Context).runFrom c = (.ok c, c) := rfl

def ask {α : Type} (f : Context → Except Error α) : Act α := do ofExcept (f (← get))

@[simp] theorem runFrom_ask (f : Context → Except Error α) (c : Context) :
    (ask f).runFrom c = (f c, c) := by
  change (ofExcept (f c) : Act α).runFrom c = (f c, c)
  simp

def ofEval {α : Type} (x : Eval α) : Act α := ExceptT.mk do
  let c ← get
  let (result, state) := x.runFrom c.state
  set { c with state }
  return result

theorem runFrom_ofEval (x : Eval α) (c : Context) :
    (ofEval x).runFrom c = ((x.runFrom c.state).1, { c with state := (x.runFrom c.state).2 }) := rfl

def setRows (rows : List Value) : Act Unit := do
  let name ← ask Context.tableName
  modify fun c => { c with state := { c.state with store := c.state.store.load name rows } }

theorem runFrom_setRows (rows : List Value) (c : Context) :
    (setRows rows).runFrom c = match c.binding.table with
      | some name =>
        (.ok (), { c with state := { c.state with store := c.state.store.load name rows } })
      | none => (.error (.notSelected .table c.type), c) := by
  rw [setRows, runFrom_bind, runFrom_ask, Context.tableName]
  cases c.binding.table <;> rfl

def setRowIndex (index : Option Nat) : Act Unit :=
  modify fun c => { c with binding := { c.binding with rowIndex := index } }

def setRowId (id : Option Value) : Act Unit :=
  modify fun c => { c with binding := { c.binding with rowId := id } }

/-- Draws a key for a table with the given rows. -/
def freshKey (rows : List Value) : Act String :=
  modifyGet fun c =>
    let (key, state) := c.state.freshKey rows
    (key, { c with state })

/-- Records which row of a stream was picked, so that it can act as a selection. A table trusts
the position first. -/
def bindRow (row : Value) (position : Nat) : Act Unit := do
  let c ← get
  if c.type.isStream then
    setRowIndex (if c.type = .table then some position else none)
    setRowIndex (← ask (Context.locate row))
    setRowId row.id?

end Act

end TableQuery
