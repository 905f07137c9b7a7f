import TableQuery.Proofs.Keeps

/-!
How computations fail. `Raises E x` says that every error of `x` satisfies `E`, from whatever state
it runs; `FailsOnly E x` says it of an outcome that needs no state. The lemmas follow the way
computations are built.
-/

namespace TableQuery

def FailsOnly {α : Type} (E : Error → Prop) (x : Except Error α) : Prop :=
  ∀ e, x = .error e → E e

def Raises {σ α : Type} (E : Error → Prop) (x : ExceptT Error (StateM σ) α) : Prop :=
  ∀ s, FailsOnly E (StateT.run (ExceptT.run x) s).1

namespace FailsOnly

variable {α β : Type} {E : Error → Prop} {x : Except Error α}

theorem ok (a : α) : FailsOnly E (.ok a) := fun _ h => nomatch h

theorem error {e : Error} (h : E e) : FailsOnly E (.error e : Except Error α) := by
  intro e' he
  cases he
  exact h

theorem imp {E' : Error → Prop} (h : FailsOnly E x) (hE : ∀ e, E e → E' e) : FailsOnly E' x :=
  fun e he => hE e (h e he)

theorem bind {f : α → Except Error β} (hx : FailsOnly E x) (hf : ∀ a, FailsOnly E (f a)) :
    FailsOnly E (x >>= f) := by
  cases x with
  | error e => exact error (hx e rfl)
  | ok a => exact hf a

theorem map {f : α → β} (hx : FailsOnly E x) : FailsOnly E (f <$> x) := by
  cases x with
  | error e => exact error (hx e rfl)
  | ok a => exact ok (f a)

theorem mapM {f : α → Except Error β} (hf : ∀ a, FailsOnly E (f a)) (xs : List α) :
    FailsOnly E (xs.mapM f) := by
  induction xs with
  | nil => exact ok []
  | cons x rest ih =>
    rw [List.mapM_cons]
    exact bind (hf x) fun y => bind ih fun ys => ok (y :: ys)

theorem foldlM {f : β → α → Except Error β} (hf : ∀ b a, FailsOnly E (f b a)) (xs : List α)
    (b : β) : FailsOnly E (xs.foldlM f b) := by
  induction xs generalizing b with
  | nil => exact ok b
  | cons x rest ih =>
    rw [List.foldlM_cons]
    exact bind (hf b x) ih

theorem forM {f : α → Except Error PUnit} (hf : ∀ a, FailsOnly E (f a)) (xs : List α) :
    FailsOnly E (xs.forM f) := by
  induction xs with
  | nil => exact ok PUnit.unit
  | cons x rest ih => exact bind (hf x) fun _ => ih

end FailsOnly

namespace Raises

variable {σ α β : Type} {E : Error → Prop} {x : ExceptT Error (StateM σ) α}
  {f : α → ExceptT Error (StateM σ) β}

theorem pure (a : α) : Raises E (pure a : ExceptT Error (StateM σ) α) := fun _ => .ok a

theorem throw {e : Error} (h : E e) : Raises E (throw e : ExceptT Error (StateM σ) α) :=
  fun _ => .error h

theorem ofExcept {x : Except Error α} (h : FailsOnly E x) :
    Raises E (ofExcept x : ExceptT Error (StateM σ) α) := by
  cases x with
  | error e => exact throw (h e rfl)
  | ok a => exact pure a

/-- An error of two steps is one of the first, or of the second behind some result of the first. -/
theorem bind (hx : Raises E x) (hf : ∀ a, Raises E (f a)) : Raises E (x >>= f) := by
  intro s
  have hfirst := hx s
  rw [run_bind]
  rcases hout : StateT.run (ExceptT.run x) s with ⟨e | a, next⟩
  · rw [hout] at hfirst
    exact .error (hfirst e rfl)
  · exact hf a next

/-- What would come after an error is not run. -/
theorem throw_bind {e : Error} (h : E e) : Raises E (MonadExcept.throw e >>= f) :=
  fun _ => .error h

theorem map {g : α → β} (hx : Raises E x) : Raises E (do return g (← x)) :=
  bind hx fun a => pure (g a)

theorem mapM {g : α → ExceptT Error (StateM σ) β} {xs : List α}
    (h : ∀ x ∈ xs, Raises E (g x)) : Raises E (xs.mapM g) := by
  induction xs with
  | nil => exact pure []
  | cons x rest ih =>
    rw [List.mapM_cons]
    refine bind (h x List.mem_cons_self) fun y => ?_
    exact map (ih fun z hz => h z (List.mem_cons_of_mem x hz))

theorem foldlM {g : β → α → ExceptT Error (StateM σ) β} {xs : List α}
    (h : ∀ b, ∀ x ∈ xs, Raises E (g b x)) (b : β) : Raises E (xs.foldlM g b) := by
  induction xs generalizing b with
  | nil => exact pure b
  | cons x rest ih =>
    rw [List.foldlM_cons]
    exact bind (h b x List.mem_cons_self) (ih fun c z hz => h c z (List.mem_cons_of_mem x hz))

end Raises

def Argument.Raises (E : Error → Prop) : Argument → Prop
  | .undefined => E .undefinedArgument ∧ E .undefinedKey
  | .datum _ => True
  | .deferred run => ∀ row, TableQuery.Raises E (run row)

namespace Raises

variable {α β : Type} {E : Error → Prop}

theorem get_bind {f : Context → Act β} (hf : ∀ c, Raises E (f c)) :
    Raises E (get >>= f : Act β) := by
  intro c
  rw [run_bind]
  exact hf c c

theorem ask {f : Context → Except Error α} (h : ∀ c, FailsOnly E (f c)) :
    Raises E (Act.ask f) := by
  intro c
  have hrun := Act.runFrom_ask f c
  rw [Act.runFrom] at hrun
  rw [hrun]
  exact h c

theorem ofEval {x : Eval α} (h : Raises E x) : Raises E (Act.ofEval x) := fun c => h c.state

theorem freshKey (rows : List Value) : Raises E (Act.freshKey rows) := fun _ => .ok _

theorem setRowIndex (index : Option Nat) : Raises E (Act.setRowIndex index) := fun _ => .ok _

theorem setRowId (id : Option Value) : Raises E (Act.setRowId id) := fun _ => .ok _

theorem resolve {a : Argument} (h : a.Raises E) : Raises E (Act.resolve a) := by
  apply ofEval
  cases a with
  | undefined => exact throw h.1
  | datum v => exact pure v
  | deferred run => exact h none

theorem evalRow {a : Argument} (h : a.Raises E) (row : Value) : Raises E (Act.evalRow row a) := by
  apply ofEval
  cases a with
  | undefined => exact throw h.1
  | datum v => exact pure v
  | deferred run => exact h (some row)

theorem resolveAll {args : List Argument} (h : ∀ a ∈ args, a.Raises E) :
    Raises E (Act.resolveAll args) :=
  mapM fun a ha => resolve (h a ha)

end Raises

end TableQuery
