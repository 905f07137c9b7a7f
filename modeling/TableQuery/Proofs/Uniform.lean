import TableQuery.Proofs.Keeps

/-!
One computation from two states. `Uniform R Q x` says that `x`, run from states that `R` relates,
ends in the same way from both, error or result, and in states that `R` relates again. The relation
is agreement on some tables (`AgreeOn`); an action sees no more than its context (`Context.Alike`).
-/

namespace TableQuery

def Uniform {σ α : Type} (R : σ → σ → Prop) (Q : α → Prop) (x : ExceptT Error (StateM σ) α) :
    Prop :=
  ∀ s s', R s s' →
    (StateT.run (ExceptT.run x) s).1 = (StateT.run (ExceptT.run x) s').1 ∧
      R (StateT.run (ExceptT.run x) s).2 (StateT.run (ExceptT.run x) s').2 ∧
      ∀ a, (StateT.run (ExceptT.run x) s).1 = .ok a → Q a

namespace Uniform

variable {σ α β : Type} {R : σ → σ → Prop} {P : α → Prop} {Q : β → Prop}

theorem pure {a : α} (h : P a) : Uniform R P (pure a) := by
  intro s s' hs
  refine ⟨rfl, hs, fun b hb => ?_⟩
  cases hb
  exact h

theorem throw {e : Error} : Uniform R P (throw e) := by
  intro s s' hs
  exact ⟨rfl, hs, fun b hb => nomatch hb⟩

theorem ofExcept {x : Except Error α} (h : ∀ a, x = .ok a → P a) : Uniform R P (ofExcept x) := by
  cases x with
  | error e => exact throw
  | ok a => exact pure (h a rfl)

/-- The second part runs after the same result of the first, or after the same error not at all. -/
theorem bind {x : ExceptT Error (StateM σ) α} {f : α → ExceptT Error (StateM σ) β}
    (hx : Uniform R P x) (hf : ∀ a, P a → Uniform R Q (f a)) : Uniform R Q (x >>= f) := by
  intro s s' hs
  have hfirst := hx s s' hs
  rw [run_bind, run_bind]
  rcases hout : StateT.run (ExceptT.run x) s with ⟨outcome, next⟩
  rcases hout' : StateT.run (ExceptT.run x) s' with ⟨outcome', next'⟩
  rw [hout, hout'] at hfirst
  obtain ⟨rfl, hnext, hresult⟩ := hfirst
  cases outcome with
  | error e => exact ⟨rfl, hnext, fun b hb => nomatch hb⟩
  | ok a => exact hf a (hresult a rfl) next next' hnext

/-- What would come after an error is not run. -/
theorem throw_bind {e : Error} {f : α → ExceptT Error (StateM σ) β} :
    Uniform R Q (MonadExcept.throw e >>= f) :=
  bind (P := fun _ => False) throw fun _ h => h.elim

theorem imp {P' : α → Prop} {x : ExceptT Error (StateM σ) α} (hx : Uniform R P x)
    (h : ∀ a, P a → P' a) : Uniform R P' x :=
  fun s s' hs => ⟨(hx s s' hs).1, (hx s s' hs).2.1, fun a ha => h a ((hx s s' hs).2.2 a ha)⟩

theorem map {x : ExceptT Error (StateM σ) α} {f : α → β} (hx : Uniform R P x)
    (h : ∀ a, P a → Q (f a)) : Uniform R Q (do return f (← x)) :=
  bind hx fun a ha => pure (h a ha)

theorem mapM {f : α → ExceptT Error (StateM σ) β} {xs : List α}
    (h : ∀ x ∈ xs, Uniform R Q (f x)) : Uniform R (fun ys => ∀ y ∈ ys, Q y) (xs.mapM f) := by
  induction xs with
  | nil =>
    rw [List.mapM_nil]
    exact pure (by simp)
  | cons x xs ih =>
    rw [List.mapM_cons]
    refine bind (h x List.mem_cons_self) fun y hy => ?_
    refine bind (ih fun a ha => h a (List.mem_cons_of_mem _ ha)) fun ys hys => ?_
    exact pure (by simpa using ⟨hy, hys⟩)

theorem foldlM {f : β → α → ExceptT Error (StateM σ) β} {xs : List α} {b : β} (hb : Q b)
    (h : ∀ b, Q b → ∀ x ∈ xs, Uniform R Q (f b x)) : Uniform R Q (xs.foldlM f b) := by
  induction xs generalizing b with
  | nil => exact pure hb
  | cons x xs ih =>
    rw [List.foldlM_cons]
    refine bind (h b hb x List.mem_cons_self) fun c hc => ?_
    exact ih hc fun b hb a ha => h b hb a (List.mem_cons_of_mem _ ha)

end Uniform

/-- Two states with the same rows in the tables of some names, or without them, that draw the same
keys from one source. -/
structure AgreeOn (source : KeySource) (names : List String) (s s' : State) : Prop where
  source_eq : s.source = source
  source_eq' : s'.source = source
  drawn_eq : s.drawn = s'.drawn
  rows_eq : ∀ name ∈ names, s.store.rows? name = s'.store.rows? name

structure Context.Alike (source : KeySource) (names : List String) (c c' : Context) : Prop where
  type_eq : c.type = c'.type
  binding_eq : c.binding = c'.binding
  named : ∀ name ∈ c.binding.table, name ∈ names
  state : AgreeOn source names c.state c'.state

def Argument.Uniform (source : KeySource) (names : List String) : Argument → Prop
  | .undefined => True
  | .datum _ => True
  | .deferred run => ∀ row, TableQuery.Uniform (AgreeOn source names) (fun _ => True) (run row)

abbrev Act.Local (source : KeySource) (names : List String) {α : Type} (x : Act α) : Prop :=
  Uniform (Context.Alike source names) (fun _ => True) x

variable {source : KeySource} {names : List String}

namespace AgreeOn

theorem refl (s : State) : AgreeOn s.source names s s := ⟨rfl, rfl, rfl, fun _ _ => rfl⟩

/-- What is written to a table on both sides agrees. -/
theorem load {s s' : State} (h : AgreeOn source names s s') (name : String) (rows : List Value) :
    AgreeOn source names { s with store := s.store.load name rows }
      { s' with store := s'.store.load name rows } := by
  refine ⟨h.source_eq, h.source_eq', h.drawn_eq, fun other hother => ?_⟩
  rw [Store.rows?_load, Store.rows?_load]
  split
  · rfl
  · exact h.rows_eq other hother

end AgreeOn

/-- The live rows are those of the bound table, on both sides. -/
theorem Context.Alike.rows_eq {c c' : Context} (h : Context.Alike source names c c') :
    c.rows = c'.rows := by
  have hbinding := h.binding_eq
  unfold Context.rows Context.tableName
  rw [← hbinding, ← h.type_eq]
  cases htable : c.binding.table with
  | none => rfl
  | some name =>
    change c.state.store.rows name = c'.state.store.rows name
    unfold Store.rows
    rw [h.state.rows_eq name (h.named name htable)]

namespace Uniform

variable {α β : Type} {Q : α → Prop}

/-- A check of a value does not look at the context. -/
theorem check (x : Except Error α) :
    (MonadExcept.ofExcept x : Act α).Local source names := ofExcept fun _ _ => trivial

theorem ask {f : Context → Except Error α}
    (h : ∀ c c', Context.Alike source names c c' → f c = f c') :
    (Act.ask f).Local source names := by
  intro c c' hc
  have hrun := Act.runFrom_ask f c
  have hrun' := Act.runFrom_ask f c'
  rw [Act.runFrom] at hrun hrun'
  rw [hrun, hrun']
  exact ⟨h c c' hc, hc, fun _ _ => trivial⟩

theorem rows : (Act.ask Context.rows).Local source names := ask fun _ _ hc => hc.rows_eq

theorem locate (row : Value) : (Act.ask (Context.locate row)).Local source names := by
  apply ask
  intro c c' hc
  unfold Context.locate
  rw [hc.rows_eq, hc.binding_eq]

theorem expectType (type : TypeTag) :
    (Act.ask (Context.expectType type)).Local source names := by
  apply ask
  intro c c' hc
  unfold Context.expectType
  rw [hc.type_eq]

theorem expectSelection : (Act.ask Context.expectSelection).Local source names := by
  apply ask
  intro c c' hc
  unfold Context.expectSelection
  rw [hc.type_eq]

/-- The type of the context may be looked at. -/
theorem getType_bind {f : Context → Act β} (htype : ∀ c c' : Context, c.type = c'.type → f c = f c')
    (hf : ∀ c, (f c).Local source names) : (get >>= f : Act β).Local source names := by
  have hget (c : Context) : StateT.run (ExceptT.run (get >>= f : Act β)) c =
      StateT.run (ExceptT.run (f c)) c := by
    rw [run_bind]
    rfl
  intro c c' hc
  rw [hget, hget, ← htype c c' hc.type_eq]
  exact hf c c c' hc

theorem ofEval {x : Eval α} (h : Uniform (AgreeOn source names) Q x) :
    Uniform (Context.Alike source names) Q (Act.ofEval x) := by
  intro c c' hc
  have hrun := h c.state c'.state hc.state
  exact ⟨hrun.1, ⟨hc.type_eq, hc.binding_eq, hc.named, hrun.2.1⟩, hrun.2.2⟩

theorem setRows (rows : List Value) : (Act.setRows rows).Local source names := by
  intro c c' hc
  have hrun := Act.runFrom_setRows rows c
  have hrun' := Act.runFrom_setRows rows c'
  rw [Act.runFrom] at hrun hrun'
  rw [← hc.binding_eq, ← hc.type_eq] at hrun'
  rw [hrun, hrun']
  cases c.binding.table with
  | none => exact ⟨rfl, hc, fun _ _ => trivial⟩
  | some name =>
    dsimp only
    exact ⟨rfl, ⟨rfl, rfl, hc.named, hc.state.load name rows⟩, fun _ _ => trivial⟩

/-- The same key is drawn, as it depends on the rows that it is drawn for. -/
theorem freshKey (rows : List Value) : (Act.freshKey rows).Local source names := by
  intro c c' hc
  have hkey : (c.state.freshKey rows).1 = (c'.state.freshKey rows).1 := by
    unfold State.freshKey
    rw [hc.state.source_eq, hc.state.source_eq', hc.state.drawn_eq]
  have hnext : AgreeOn source names (c.state.freshKey rows).2 (c'.state.freshKey rows).2 :=
    ⟨hc.state.source_eq, hc.state.source_eq', congrArg (· + 1) hc.state.drawn_eq, hc.state.rows_eq⟩
  exact ⟨congrArg Except.ok hkey, ⟨hc.type_eq, hc.binding_eq, hc.named, hnext⟩, fun _ _ => trivial⟩

theorem setRowIndex (index : Option Nat) : (Act.setRowIndex index).Local source names :=
  fun _ _ hc => ⟨rfl, ⟨hc.type_eq, congrArg (fun b : Binding => { b with rowIndex := index })
    hc.binding_eq, hc.named, hc.state⟩, fun _ _ => trivial⟩

theorem setRowId (id : Option Value) : (Act.setRowId id).Local source names :=
  fun _ _ hc => ⟨rfl, ⟨hc.type_eq, congrArg (fun b : Binding => { b with rowId := id })
    hc.binding_eq, hc.named, hc.state⟩, fun _ _ => trivial⟩

theorem bindRow (row : Value) (position : Nat) :
    (Act.bindRow row position).Local source names := by
  refine getType_bind (fun c c' h => by rw [h]) fun c => ?_
  split
  · refine bind (setRowIndex _) fun _ _ => ?_
    refine bind (locate row) fun index _ => ?_
    exact bind (setRowIndex index) fun _ _ => setRowId _
  · exact pure trivial

theorem resolve {a : Argument} (h : a.Uniform source names) :
    (Act.resolve a).Local source names := by
  apply ofEval
  cases a with
  | undefined => exact throw
  | datum v => exact pure trivial
  | deferred run => exact h none

theorem evalRow {a : Argument} (h : a.Uniform source names) (row : Value) :
    (Act.evalRow row a).Local source names := by
  apply ofEval
  cases a with
  | undefined => exact throw
  | datum v => exact pure trivial
  | deferred run => exact h (some row)

theorem resolveAll {args : List Argument} (h : ∀ a ∈ args, a.Uniform source names) :
    (Act.resolveAll args).Local source names :=
  (mapM fun a ha => resolve (h a ha)).imp fun _ _ => trivial

end Uniform

end TableQuery
