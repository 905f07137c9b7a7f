import TableQuery.Quoted
import TableQuery.Store

/-!
The state that a query runs in: the tables and a source of fresh keys. What a query did before it
failed stays done.
-/

namespace TableQuery

/-- Where fresh keys come from: the `n`-th key drawn, for a table with the given rows. -/
structure KeySource where
  key : Nat → List Value → String

namespace KeySource

/-- A source is fresh if none of its keys is in use in the table that it is drawn for. -/
def Fresh (source : KeySource) : Prop :=
  ∀ (n : Nat) (rows : List Value), ∀ row ∈ rows, row.id? ≠ some (.string (source.key n rows))

def inUse (rows : List Value) (key : String) : Bool :=
  rows.any fun row => match row.id? with
    | some (.string s) => s == key
    | _ => false

/-- The first of some candidates, from the `n`-th on, that is not in use. -/
def firstFree (candidate : Nat → String) (rows : List Value) : Nat → Nat → String
  | 0, n => candidate n
  | tries + 1, n =>
    if inUse rows (candidate n) then firstFree candidate rows tries (n + 1) else candidate n

/-- Draws candidates in turn and passes over those in use. -/
def avoiding (candidate : Nat → String) : KeySource :=
  ⟨fun n rows => firstFree candidate rows rows.length n⟩

end KeySource

/-- The last `count` hexadecimal digits of a number. -/
def hexDigits (n : Nat) : Nat → List Char
  | 0 => []
  | count + 1 => hexDigits (n / 16) count ++ [Quoted.hexDigit (n % 16)]

/-- A version 4 identifier: 122 free bits in five groups of hexadecimal digits. -/
def identifier (n : Nat) : String :=
  let group (place count : Nat) : List Char := hexDigits (n / Nat.pow 16 place) count
  let variant := Quoted.hexDigit (8 + n / Nat.pow 16 30 % 4)
  String.ofList (group 22 8 ++ '-' :: group 18 4 ++ '-' :: '4' :: group 15 3 ++
    '-' :: variant :: group 12 3 ++ '-' :: group 0 12)

/-- Identifiers counted up from a number. -/
def KeySource.from (first : Nat) : KeySource := avoiding fun n => identifier (first + n)

structure State where
  store : Store
  source : KeySource
  drawn : Nat

/-- A computation on the state that may fail; the state after a failure is kept. -/
abbrev Eval := ExceptT Error (StateM State)

def Eval.runFrom {α : Type} (x : Eval α) (state : State) : Except Error α × State :=
  StateT.run (ExceptT.run x) state

namespace Eval

variable {α β : Type}

@[simp] theorem runFrom_pure (a : α) (state : State) :
    (pure a : Eval α).runFrom state = (.ok a, state) := rfl

@[simp] theorem runFrom_throw (e : Error) (state : State) :
    (throw e : Eval α).runFrom state = (.error e, state) := rfl

@[simp] theorem runFrom_ofExcept (x : Except Error α) (state : State) :
    (ofExcept x : Eval α).runFrom state = (x, state) := by
  cases x <;> rfl

/-- A computation goes on in the state that its first part leaves; a failure ends it. -/
theorem runFrom_bind (x : Eval α) (f : α → Eval β) (state : State) :
    (x >>= f).runFrom state = match x.runFrom state with
      | (.ok a, next) => (f a).runFrom next
      | (.error e, next) => (.error e, next) := by
  change StateT.run (ExceptT.bindCont f (x.runFrom state).1) (x.runFrom state).2 = _
  rcases x.runFrom state with ⟨_ | _, _⟩ <;> rfl

end Eval

def Eval.rows (name : String) : Eval (List Value) := do
  ofExcept ((← get).store.rows name)

/-- Draws a key for a table with the given rows. -/
def State.freshKey (state : State) (rows : List Value) : String × State :=
  (state.source.key state.drawn rows, { state with drawn := state.drawn + 1 })

end TableQuery
