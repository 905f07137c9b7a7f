import Mathlib.Data.List.Basic
import TableQuery.Action.Registry

/-!
What computations keep. `Keeps I Q x` says that `x` takes every state with the invariant `I` to
one with it, whether it fails or not, and that its result, if it has one, satisfies `Q`. The
lemmas follow the way computations are built; an action also keeps its type and bound table.
-/

namespace TableQuery

/-- A success of two steps is one of both. -/
theorem exists_of_bind_ok {α β : Type} {x : Except Error α} {f : α → Except Error β} {b : β}
    (h : x >>= f = .ok b) : ∃ a, x = .ok a ∧ f a = .ok b := by
  cases x with
  | error e => cases h
  | ok a => exact ⟨a, rfl, h⟩

theorem mem_of_mapM_ok {α β : Type} {f : α → Except Error β} {xs : List α} {ys : List β} {y : β}
    (h : xs.mapM f = .ok ys) (hy : y ∈ ys) : ∃ x ∈ xs, f x = .ok y := by
  induction xs generalizing ys with
  | nil =>
    rw [List.mapM_nil] at h
    cases h
    simp at hy
  | cons x rest ih =>
    rw [List.mapM_cons] at h
    obtain ⟨first, hfirst, h⟩ := exists_of_bind_ok h
    obtain ⟨others, hothers, h⟩ := exists_of_bind_ok h
    cases h
    rcases List.mem_cons.mp hy with rfl | hmem
    · exact ⟨x, List.mem_cons_self, hfirst⟩
    · obtain ⟨z, hz, hfz⟩ := ih hothers hmem
      exact ⟨z, List.mem_cons_of_mem _ hz, hfz⟩

/-- A computation goes on in the state that its first part leaves; a failure ends it. -/
theorem run_bind {σ α β : Type} (x : ExceptT Error (StateM σ) α)
    (f : α → ExceptT Error (StateM σ) β) (s : σ) :
    StateT.run (ExceptT.run (x >>= f)) s = match StateT.run (ExceptT.run x) s with
      | (.ok a, next) => StateT.run (ExceptT.run (f a)) next
      | (.error e, next) => (.error e, next) := by
  change StateT.run (ExceptT.bindCont f (StateT.run (ExceptT.run x) s).1)
    (StateT.run (ExceptT.run x) s).2 = _
  rcases StateT.run (ExceptT.run x) s with ⟨_ | _, _⟩ <;> rfl

/-- What is made of a result does not touch the state. -/
theorem run_map {σ α β : Type} (x : ExceptT Error (StateM σ) α) (g : α → β) (s : σ) :
    StateT.run (ExceptT.run (do return g (← x))) s =
      ((StateT.run (ExceptT.run x) s).1.map g, (StateT.run (ExceptT.run x) s).2) := by
  rw [run_bind]
  rcases StateT.run (ExceptT.run x) s with ⟨_ | a, next⟩ <;> rfl

/-- A computation that succeeds does so in both of its parts. -/
theorem run_bind_ok {σ α β : Type} {x : ExceptT Error (StateM σ) α}
    {f : α → ExceptT Error (StateM σ) β} {s next : σ} {b : β}
    (h : StateT.run (ExceptT.run (x >>= f)) s = (.ok b, next)) :
    ∃ a mid, StateT.run (ExceptT.run x) s = (.ok a, mid) ∧
      StateT.run (ExceptT.run (f a)) mid = (.ok b, next) := by
  rw [run_bind] at h
  rcases hx : StateT.run (ExceptT.run x) s with ⟨e | a, mid⟩
  · rw [hx] at h
    cases h
  · rw [hx] at h
    exact ⟨a, mid, rfl, h⟩

theorem Eval.bind_ok {α β : Type} {x : Eval α} {f : α → Eval β} {s next : State} {b : β}
    (h : (x >>= f).runFrom s = (.ok b, next)) :
    ∃ a mid, x.runFrom s = (.ok a, mid) ∧ (f a).runFrom mid = (.ok b, next) := run_bind_ok h

namespace Act

variable {α β : Type} {c next : Context}

theorem bind_ok {x : Act α} {f : α → Act β} {b : β} (h : (x >>= f).runFrom c = (.ok b, next)) :
    ∃ a mid, x.runFrom c = (.ok a, mid) ∧ (f a).runFrom mid = (.ok b, next) := run_bind_ok h

theorem runFrom_ofExcept_ok {x : Except Error α} {a : α}
    (h : (ofExcept x : Act α).runFrom c = (.ok a, next)) : x = .ok a ∧ next = c := by
  rw [runFrom_ofExcept] at h
  exact ⟨congrArg Prod.fst h, (congrArg Prod.snd h).symm⟩

theorem runFrom_ask_ok {f : Context → Except Error α} {a : α}
    (h : (ask f).runFrom c = (.ok a, next)) : f c = .ok a ∧ next = c := by
  rw [runFrom_ask] at h
  exact ⟨congrArg Prod.fst h, (congrArg Prod.snd h).symm⟩

end Act

def Keeps {σ α : Type} (I : σ → Prop) (Q : α → Prop) (x : ExceptT Error (StateM σ) α) : Prop :=
  ∀ s, I s → I (StateT.run (ExceptT.run x) s).2 ∧
    ∀ a, (StateT.run (ExceptT.run x) s).1 = .ok a → Q a

namespace Keeps

variable {σ α β : Type} {I : σ → Prop} {P : α → Prop} {Q : β → Prop}

theorem pure {a : α} (h : P a) : Keeps I P (pure a) := by
  intro s hs
  refine ⟨hs, fun b hb => ?_⟩
  cases hb
  exact h

theorem throw {e : Error} : Keeps I P (throw e) := by
  intro s hs
  exact ⟨hs, fun b hb => nomatch hb⟩

theorem ofExcept {x : Except Error α} (h : ∀ a, x = .ok a → P a) : Keeps I P (ofExcept x) := by
  cases x with
  | error e => exact throw
  | ok a => exact pure (h a rfl)

theorem bind {x : ExceptT Error (StateM σ) α} {f : α → ExceptT Error (StateM σ) β}
    (hx : Keeps I P x) (hf : ∀ a, P a → Keeps I Q (f a)) : Keeps I Q (x >>= f) := by
  intro s hs
  have hfirst := hx s hs
  rw [run_bind]
  rcases hout : StateT.run (ExceptT.run x) s with ⟨e | a, next⟩
  · rw [hout] at hfirst
    exact ⟨hfirst.1, fun b hb => nomatch hb⟩
  · rw [hout] at hfirst
    exact hf a (hfirst.2 a rfl) next hfirst.1

theorem imp {P' : α → Prop} {x : ExceptT Error (StateM σ) α} (hx : Keeps I P x)
    (h : ∀ a, P a → P' a) : Keeps I P' x :=
  fun s hs => ⟨(hx s hs).1, fun a ha => h a ((hx s hs).2 a ha)⟩

/-- Two facts of a computation may be found apart. -/
theorem and {J : σ → Prop} {P' : α → Prop} {x : ExceptT Error (StateM σ) α} (hx : Keeps I P x)
    (hx' : Keeps J P' x) : Keeps (fun s => I s ∧ J s) (fun a => P a ∧ P' a) x := by
  intro s hs
  have hleft := hx s hs.1
  have hright := hx' s hs.2
  exact ⟨⟨hleft.1, hright.1⟩, fun a ha => ⟨hleft.2 a ha, hright.2 a ha⟩⟩

theorem map {x : ExceptT Error (StateM σ) α} {f : α → β} (hx : Keeps I P x)
    (h : ∀ a, P a → Q (f a)) : Keeps I Q (do return f (← x)) :=
  bind hx fun a ha => pure (h a ha)

theorem mapM {f : α → ExceptT Error (StateM σ) β} {xs : List α}
    (h : ∀ x ∈ xs, Keeps I Q (f x)) : Keeps I (fun ys => ∀ y ∈ ys, Q y) (xs.mapM f) := by
  induction xs with
  | nil =>
    rw [List.mapM_nil]
    exact pure (by simp)
  | cons x xs ih =>
    rw [List.mapM_cons]
    refine bind (h x List.mem_cons_self) fun y hy => ?_
    refine bind (ih fun a ha => h a (List.mem_cons_of_mem _ ha)) fun ys hys => ?_
    exact pure (by simpa using ⟨hy, hys⟩)

/-- A loop has as many results as items, whatever it does to the state. -/
theorem length_mapM (f : α → ExceptT Error (StateM σ) β) (xs : List α) :
    Keeps (fun _ => True) (fun ys => ys.length = xs.length) (xs.mapM f) := by
  have hany {γ : Type} (x : ExceptT Error (StateM σ) γ) :
      Keeps (fun _ => True) (fun _ => True) x := fun _ _ => ⟨trivial, fun _ _ => trivial⟩
  induction xs with
  | nil =>
    rw [List.mapM_nil]
    exact pure rfl
  | cons x xs ih =>
    rw [List.mapM_cons]
    refine bind (hany (f x)) fun y _ => ?_
    exact map ih fun ys hys => by rw [List.length_cons, List.length_cons, hys]

theorem foldlM {f : β → α → ExceptT Error (StateM σ) β} {xs : List α} {b : β} (hb : Q b)
    (h : ∀ b, Q b → ∀ x ∈ xs, Keeps I Q (f b x)) : Keeps I Q (xs.foldlM f b) := by
  induction xs generalizing b with
  | nil => exact pure hb
  | cons x xs ih =>
    rw [List.foldlM_cons]
    refine bind (h b hb x List.mem_cons_self) fun c hc => ?_
    exact ih hc fun b hb a ha => h b hb a (List.mem_cons_of_mem _ ha)

end Keeps

structure Framed (I : State → Prop) (type : TypeTag) (table : Option String) (c : Context) :
    Prop where
  type_eq : c.type = type
  table_eq : c.binding.table = table
  state : I c.state

abbrev FramedAt (s : State) : TypeTag → Option String → Context → Prop :=
  Framed fun state => state = s

def Argument.Good (I : State → Prop) (V : Value → Prop) : Argument → Prop
  | .undefined => True
  | .datum v => V v
  | .deferred run => ∀ row, (∀ v ∈ row, V v) → Keeps I V (run row)

abbrev Argument.Leaves (s : State) : Argument → Prop := Good (fun state => state = s) fun _ => True

def Argument.valueFor (s : State) (row : Value) (a : Argument) : Except Error Value :=
  ((a.evalRow row).runFrom s).1

/-- An argument that leaves the state as it is can be evaluated for a row in any context. -/
theorem Act.runFrom_evalRow {c : Context} {a : Argument} (ha : a.Leaves c.state) (row : Value) :
    (evalRow row a).runFrom c = (a.valueFor c.state row, c) := by
  have hstate : ((a.evalRow row).runFrom c.state).2 = c.state := by
    cases a with
    | undefined => rfl
    | datum v => rfl
    | deferred run => exact (ha (some row) (by simp) c.state rfl).1
  rw [evalRow, runFrom_ofEval, hstate]
  rfl

def Implementation.Keeps (I : State → Prop) (V : Value → Prop) (i : Implementation) : Prop :=
  ∀ receiver args type table, V receiver → (∀ a ∈ args, a.Good I V) →
    TableQuery.Keeps (Framed I type table) V (i.call receiver args)

def Implementation.KeepsOn (T : String → Prop) (I : State → Prop) (V : Value → Prop)
    (i : Implementation) : Prop :=
  ∀ receiver args type table, (∀ name ∈ table, T name) → V receiver →
    (∀ a ∈ args, a.Good I V) → TableQuery.Keeps (Framed I type table) V (i.call receiver args)

theorem Implementation.Keeps.on {I : State → Prop} {V : Value → Prop} {i : Implementation}
    (h : i.Keeps I V) (T : String → Prop) : i.KeepsOn T I V :=
  fun receiver args type table _ => h receiver args type table

namespace Keeps

variable {α : Type} {I : State → Prop} {V : Value → Prop} {Q : α → Prop} {type : TypeTag}
  {table : Option String}

theorem ask {f : Context → Except Error α}
    (h : ∀ c, Framed I type table c → ∀ a, f c = .ok a → Q a) :
    Keeps (Framed I type table) Q (Act.ask f) := by
  intro c hc
  have hrun := Act.runFrom_ask f c
  rw [Act.runFrom] at hrun
  rw [hrun]
  exact ⟨hc, h c hc⟩

/-- A check of the context has no result to speak of. -/
theorem check {f : Context → Except Error α} :
    Keeps (Framed I type table) (fun _ => True) (Act.ask f) :=
  ask fun _ _ _ _ => trivial

theorem getContext : Keeps (Framed I type table) (Framed I type table) get :=
  fun _ hc => ⟨hc, fun _ ha => by cases ha; exact hc⟩

theorem ofEval {x : Eval α} (h : Keeps I Q x) : Keeps (Framed I type table) Q (Act.ofEval x) := by
  intro c hc
  have hx := h c.state hc.state
  exact ⟨⟨hc.type_eq, hc.table_eq, hx.1⟩, hx.2⟩

theorem setRows {rows : List Value}
    (h : ∀ s name, I s → I { s with store := s.store.load name rows }) :
    Keeps (Framed I type table) (fun _ => True) (Act.setRows rows) := by
  intro c hc
  have hrun := Act.runFrom_setRows rows c
  rw [Act.runFrom] at hrun
  rw [hrun]
  cases c.binding.table with
  | none => exact ⟨hc, fun _ _ => trivial⟩
  | some name => exact ⟨⟨hc.type_eq, hc.table_eq, h _ _ hc.state⟩, fun _ _ => trivial⟩

theorem freshKey {rows : List Value} {Q : String → Prop}
    (h : ∀ s, I s → I (s.freshKey rows).2 ∧ Q (s.freshKey rows).1) :
    Keeps (Framed I type table) Q (Act.freshKey rows) := by
  intro c hc
  refine ⟨⟨hc.type_eq, hc.table_eq, (h _ hc.state).1⟩, fun key hkey => ?_⟩
  cases hkey
  exact (h _ hc.state).2

theorem setRowIndex (index : Option Nat) :
    Keeps (Framed I type table) (fun _ => True) (Act.setRowIndex index) :=
  fun _ hc => ⟨⟨hc.type_eq, hc.table_eq, hc.state⟩, fun _ _ => trivial⟩

theorem setRowId (id : Option Value) :
    Keeps (Framed I type table) (fun _ => True) (Act.setRowId id) :=
  fun _ hc => ⟨⟨hc.type_eq, hc.table_eq, hc.state⟩, fun _ _ => trivial⟩

theorem bindRow (row : Value) (position : Nat) :
    Keeps (Framed I type table) (fun _ => True) (Act.bindRow row position) := by
  refine bind getContext fun c _ => ?_
  split
  · refine bind (setRowIndex _) fun _ _ => ?_
    refine bind check fun index _ => ?_
    exact bind (setRowIndex index) fun _ _ => setRowId _
  · exact pure trivial

theorem argument {a : Argument} (h : a.Good I V) : Keeps I V a.resolve := by
  cases a with
  | undefined => exact throw
  | datum v => exact pure h
  | deferred run => exact h none (by simp)

theorem resolve {a : Argument} (h : a.Good I V) :
    Keeps (Framed I type table) V (Act.resolve a) :=
  ofEval (argument h)

theorem evalRow {a : Argument} {row : Value} (h : a.Good I V) (hrow : V row) :
    Keeps (Framed I type table) V (Act.evalRow row a) := by
  refine ofEval ?_
  cases a with
  | undefined => exact throw
  | datum v => exact pure h
  | deferred run => exact h (some row) (by simpa using hrow)

theorem resolveAll {args : List Argument} (h : ∀ a ∈ args, a.Good I V) :
    Keeps (Framed I type table) (fun vs => ∀ v ∈ vs, V v) (Act.resolveAll args) :=
  mapM fun a ha => resolve (h a ha)

end Keeps

/-- An argument that is not given is as good as any. -/
theorem Argument.good_getD {I : State → Prop} {V : Value → Prop} {args : List Argument}
    (h : ∀ a ∈ args, a.Good I V) (i : Nat) : (args[i]?.getD .undefined).Good I V := by
  cases hi : args[i]? with
  | none => exact trivial
  | some a => exact h a (List.mem_of_getElem? hi)

end TableQuery
