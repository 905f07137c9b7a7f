import TableQuery.Error

namespace TableQuery

/-- Tables by name, each with its rows in insertion order. -/
structure Store where
  tables : List (String × List Value)
  deriving Repr, Inhabited

namespace Store

def empty : Store := ⟨[]⟩

def rows? (store : Store) (name : String) : Option (List Value) := store.tables.lookup name

def rows (store : Store) (name : String) : Except Error (List Value) :=
  match store.rows? name with
  | some rows => .ok rows
  | none => .error (.tableNotFound name)

/-- Replaces the rows of a table, which is made if it is missing. -/
def load (store : Store) (name : String) (rows : List Value) : Store :=
  ⟨Assoc.set name rows store.tables⟩

/-- A load shows in the table that it names and nowhere else. -/
@[simp] theorem rows?_load (store : Store) (name other : String) (rows : List Value) :
    (store.load name rows).rows? other = if other = name then some rows else store.rows? other :=
  Assoc.lookup_set name other rows store.tables

/-- A table that is written as it is leaves the store as it is. -/
theorem load_self {store : Store} {name : String} {rows : List Value}
    (h : store.rows? name = some rows) : store.load name rows = store := by
  rw [load, Assoc.set_self h]

def create (store : Store) (name : String) : Except Error Store :=
  match store.rows? name with
  | some _ => .error (.tableExists name)
  | none => .ok (store.load name [])

def drop (store : Store) (name : String) : Except Error Store :=
  match store.rows? name with
  | some _ => .ok ⟨store.tables.filter fun table => table.1 != name⟩
  | none => .error (.tableNotFound name)

def sorted (store : Store) : List (String × List Value) :=
  store.tables.mergeSort fun a b => decide (a.1 ≤ b.1)

def names (store : Store) : List String := store.sorted.map Prod.fst

def fixtureRows (name : String) : Value → Except Error (List Value)
  | .array rows =>
    if rows.all Value.isObject then .ok rows else .error (.fixture (.notRows name))
  | _ => .error (.fixture (.notArray name))

/-- Loads tables in order up to the first that is faulty. -/
def loadTables (store : Store) : List (String × Value) → Store × Except Error Unit
  | [] => (store, .ok ())
  | (name, table) :: rest =>
    match fixtureRows name table with
    | .ok rows => (store.load name rows).loadTables rest
    | .error e => (store, .error e)

/-- Loads an object of tables; what was loaded before an error stays. -/
def loadFixture (store : Store) : Value → Store × Except Error Unit
  | .object tables => store.loadTables tables
  | v => (store, .error (.fixture (.notObject v.kind)))

/-- The store that holds exactly the tables of a fixture. -/
def ofFixture (fixture : Value) : Except Error Store :=
  match empty.loadFixture fixture with
  | (store, .ok ()) => .ok store
  | (_, .error e) => .error e

end Store

end TableQuery
