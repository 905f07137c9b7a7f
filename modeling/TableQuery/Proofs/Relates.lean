import Mathlib.Data.List.Forall2
import TableQuery.Proofs.Keeps

/-!
Computations side by side. `Relates I J R x y` says that `x` and `y`, run from states with the
invariants `I` and `J`, both fail or both succeed with results that `R` relates, and keep the
invariants. Which error it is does not count.
-/

namespace TableQuery

inductive Agree {α β : Type} (R : α → β → Prop) : Except Error α → Except Error β → Prop
  | ok {a : α} {b : β} (h : R a b) : Agree R (.ok a) (.ok b)
  | error {e e' : Error} : Agree R (.error e) (.error e')

namespace Agree

variable {α β γ : Type} {x : Except Error α} {y : Except Error β} {z : Except Error γ}

theorem refl {R : α → α → Prop} (h : ∀ a, R a a) (x : Except Error α) : Agree R x x := by
  cases x with
  | error e => exact .error
  | ok a => exact .ok (h a)

theorem self (x : Except Error α) : Agree (fun a b => a = b ∧ x = .ok a) x x := by
  cases x with
  | error e => exact .error
  | ok a => exact .ok ⟨rfl, rfl⟩

theorem symm {R : α → β → Prop} {R' : β → α → Prop} (hR : ∀ a b, R a b → R' b a)
    (h : Agree R x y) : Agree R' y x := by
  cases h with
  | ok h => exact .ok (hR _ _ h)
  | error => exact .error

theorem trans {R : α → β → Prop} {S : β → γ → Prop} {T : α → γ → Prop}
    (hT : ∀ a b c, R a b → S b c → T a c) (h : Agree R x y) (h' : Agree S y z) :
    Agree T x z := by
  cases h with
  | ok h =>
    cases h' with
    | ok h' => exact .ok (hT _ _ _ h h')
  | error =>
    cases h' with
    | error => exact .error

theorem imp {R S : α → β → Prop} (hS : ∀ a b, R a b → S a b) (h : Agree R x y) : Agree S x y := by
  cases h with
  | ok h => exact .ok (hS _ _ h)
  | error => exact .error

theorem map {δ : Type} {R : α → β → Prop} {S : γ → δ → Prop} {f : α → γ} {g : β → δ}
    (h : Agree R x y) (hS : ∀ a b, R a b → S (f a) (g b)) : Agree S (x.map f) (y.map g) := by
  cases h with
  | ok h => exact .ok (hS _ _ h)
  | error => exact .error

theorem bind {δ : Type} {R : α → β → Prop} {S : γ → δ → Prop} {f : α → Except Error γ}
    {g : β → Except Error δ} (h : Agree R x y) (hf : ∀ a b, R a b → Agree S (f a) (g b)) :
    Agree S (x >>= f) (y >>= g) := by
  cases h with
  | ok h => exact hf _ _ h
  | error => exact .error

/-- Outcomes that agree on equal results have the same results. -/
theorem ok_iff {x y : Except Error α} (h : Agree Eq x y) (a : α) : x = .ok a ↔ y = .ok a := by
  cases h with
  | ok h => rw [h]
  | error => simp

end Agree

def Relates {σ τ α β : Type} (I : σ → Prop) (J : τ → Prop) (R : α → β → Prop)
    (x : ExceptT Error (StateM σ) α) (y : ExceptT Error (StateM τ) β) : Prop :=
  ∀ s t, I s → J t →
    Agree R (StateT.run (ExceptT.run x) s).1 (StateT.run (ExceptT.run y) t).1 ∧
      I (StateT.run (ExceptT.run x) s).2 ∧ J (StateT.run (ExceptT.run y) t).2

abbrev RelatesAt {σ α β : Type} (s : σ) (R : α → β → Prop) (x : ExceptT Error (StateM σ) α)
    (y : ExceptT Error (StateM σ) β) : Prop :=
  Relates (fun state => state = s) (fun state => state = s) R x y

namespace Relates

variable {σ τ α α' β β' : Type} {I : σ → Prop} {J : τ → Prop} {R : α → α' → Prop}
  {S : β → β' → Prop}

theorem pure {a : α} {b : α'} (h : R a b) : Relates I J R (pure a) (pure b) :=
  fun _ _ hs ht => ⟨.ok h, hs, ht⟩

theorem throw {e e' : Error} : Relates I J R (throw e) (throw e') :=
  fun _ _ hs ht => ⟨.error, hs, ht⟩

theorem ofExcept {x : Except Error α} {y : Except Error α'} (h : Agree R x y) :
    Relates I J R (ofExcept x) (ofExcept y) := by
  cases h with
  | ok h => exact pure h
  | error => exact throw

theorem bind {x : ExceptT Error (StateM σ) α} {y : ExceptT Error (StateM τ) α'}
    {f : α → ExceptT Error (StateM σ) β} {g : α' → ExceptT Error (StateM τ) β'}
    (hx : Relates I J R x y) (hf : ∀ a b, R a b → Relates I J S (f a) (g b)) :
    Relates I J S (x >>= f) (y >>= g) := by
  intro s t hs ht
  have hfirst := hx s t hs ht
  rw [run_bind, run_bind]
  rcases hleft : StateT.run (ExceptT.run x) s with ⟨outcome, next⟩
  rcases hright : StateT.run (ExceptT.run y) t with ⟨outcome', next'⟩
  rw [hleft, hright] at hfirst
  obtain ⟨hagree, hnext, hnext'⟩ := hfirst
  cases hagree with
  | ok h => exact hf _ _ h next next' hnext hnext'
  | error => exact ⟨.error, hnext, hnext'⟩

/-- Both sides go on from the same result. -/
theorem bind_eq {x : ExceptT Error (StateM σ) α} {y : ExceptT Error (StateM τ) α}
    {f : α → ExceptT Error (StateM σ) β} {g : α → ExceptT Error (StateM τ) β'}
    (hx : Relates I J Eq x y) (hf : ∀ a, Relates I J S (f a) (g a)) :
    Relates I J S (x >>= f) (y >>= g) := by
  refine bind hx fun a b hab => ?_
  rw [hab]
  exact hf b

/-- A check of a value does not look at the state. -/
theorem ofExcept_eq (x : Except Error α) :
    Relates I J Eq (MonadExcept.ofExcept x) (MonadExcept.ofExcept x) :=
  ofExcept (.refl (fun _ => rfl) x)

theorem imp {x : ExceptT Error (StateM σ) α} {y : ExceptT Error (StateM τ) α'}
    {R' : α → α' → Prop} (hx : Relates I J R x y) (h : ∀ a b, R a b → R' a b) :
    Relates I J R' x y :=
  fun s t hs ht => ⟨(hx s t hs ht).1.imp h, (hx s t hs ht).2⟩

theorem map {x : ExceptT Error (StateM σ) α} {y : ExceptT Error (StateM τ) α'} {f : α → β}
    {g : α' → β'} (hx : Relates I J R x y) (h : ∀ a b, R a b → S (f a) (g b)) :
    Relates I J S (do return f (← x)) (do return g (← y)) :=
  bind hx fun a b hab => pure (h a b hab)

/-- Loops over the same items give results that are related one by one. -/
theorem mapM {ι : Type} {f : ι → ExceptT Error (StateM σ) α}
    {g : ι → ExceptT Error (StateM τ) α'} {xs : List ι}
    (h : ∀ x ∈ xs, Relates I J R (f x) (g x)) :
    Relates I J (List.Forall₂ R) (xs.mapM f) (xs.mapM g) := by
  induction xs with
  | nil =>
    rw [List.mapM_nil, List.mapM_nil]
    exact pure .nil
  | cons x xs ih =>
    rw [List.mapM_cons, List.mapM_cons]
    refine bind (h x List.mem_cons_self) fun a b hab => ?_
    refine bind (ih fun y hy => h y (List.mem_cons_of_mem _ hy)) fun as bs habs => ?_
    exact pure (.cons hab habs)

theorem mapM_eq {ι : Type} {f : ι → ExceptT Error (StateM σ) α}
    {g : ι → ExceptT Error (StateM τ) α} {xs : List ι}
    (h : ∀ x ∈ xs, Relates I J Eq (f x) (g x)) : Relates I J Eq (xs.mapM f) (xs.mapM g) := by
  have hmap := mapM h
  rwa [List.forall₂_eq_eq_eq] at hmap

theorem foldlM {ι : Type} {f : α → ι → ExceptT Error (StateM σ) α}
    {g : α' → ι → ExceptT Error (StateM τ) α'} {xs : List ι} {a : α} {b : α'} (hab : R a b)
    (h : ∀ a b, R a b → ∀ x ∈ xs, Relates I J R (f a x) (g b x)) :
    Relates I J R (xs.foldlM f a) (xs.foldlM g b) := by
  induction xs generalizing a b with
  | nil => exact pure hab
  | cons x xs ih =>
    rw [List.foldlM_cons, List.foldlM_cons]
    refine bind (h a b hab x List.mem_cons_self) fun c d hcd => ?_
    exact ih hcd fun a b hab y hy => h a b hab y (List.mem_cons_of_mem _ hy)

/-- Each side keeps its invariant for reasons of its own. -/
theorem of_keeps {P : α → Prop} {P' : α' → Prop} {x : ExceptT Error (StateM σ) α}
    {y : ExceptT Error (StateM τ) α'} (hx : Keeps I P x) (hy : Keeps J P' y)
    (h : ∀ s t, I s → J t →
      Agree R (StateT.run (ExceptT.run x) s).1 (StateT.run (ExceptT.run y) t).1) :
    Relates I J R x y :=
  fun s t hs ht => ⟨h s t hs ht, (hx s hs).1, (hy t ht).1⟩

theorem and_keeps {P : α → Prop} {P' : α' → Prop} {x : ExceptT Error (StateM σ) α}
    {y : ExceptT Error (StateM τ) α'} (h : Relates I J R x y) (hx : Keeps I P x)
    (hy : Keeps J P' y) : Relates I J (fun a b => R a b ∧ P a ∧ P' b) x y := by
  intro s t hs ht
  have hboth := h s t hs ht
  have hleft := (hx s hs).2
  have hright := (hy t ht).2
  refine ⟨?_, hboth.2⟩
  rcases hrun : StateT.run (ExceptT.run x) s with ⟨outcome, next⟩
  rcases hrun' : StateT.run (ExceptT.run y) t with ⟨outcome', next'⟩
  rw [hrun] at hboth hleft
  rw [hrun'] at hboth hright
  obtain ⟨hagree, -⟩ := hboth
  cases hagree with
  | ok h => exact .ok ⟨h, hleft _ rfl, hright _ rfl⟩
  | error => exact .error

theorem symm {x : ExceptT Error (StateM σ) α} {y : ExceptT Error (StateM τ) α'}
    {R' : α' → α → Prop} (h : Relates I J R x y) (hR : ∀ a b, R a b → R' b a) :
    Relates J I R' y x :=
  fun t s ht hs => ⟨(h s t hs ht).1.symm hR, (h s t hs ht).2.2, (h s t hs ht).2.1⟩

/-- From the same start a third computation can be compared by way of a second. -/
theorem trans {I : σ → Prop} {γ : Type} {x : ExceptT Error (StateM σ) α}
    {y : ExceptT Error (StateM σ) β} {z : ExceptT Error (StateM σ) γ} {R : α → β → Prop}
    {S : β → γ → Prop} {T : α → γ → Prop} (h : Relates I I R x y) (h' : Relates I I S y z)
    (hT : ∀ a b c, R a b → S b c → T a c) : Relates I I T x z :=
  fun s t hs ht => ⟨(h s t hs ht).1.trans hT (h' t t ht ht).1, (h s t hs ht).2.1,
    (h' t t ht ht).2.2⟩

/-- Two computations that leave a state as it is can change places. -/
theorem swap {γ : Type} {s : σ} {P : α → Prop} {Q : β → Prop} {x : ExceptT Error (StateM σ) α}
    {y : ExceptT Error (StateM σ) β} {f : α → β → ExceptT Error (StateM σ) γ}
    (hx : Keeps (fun state => state = s) P x) (hy : Keeps (fun state => state = s) Q y)
    (hf : ∀ a b, P a → Q b → Keeps (fun state => state = s) (fun _ => True) (f a b)) :
    RelatesAt s Eq (x >>= fun a => y >>= fun b => f a b)
      (y >>= fun b => x >>= fun a => f a b) := by
  refine of_keeps (Keeps.bind hx fun a ha => Keeps.bind hy fun b hb => hf a b ha hb)
    (Keeps.bind hy fun b hb => Keeps.bind hx fun a ha => hf a b ha hb) ?_
  intro first second hfirst hsecond
  -- an error of either is an error in both orders, and the state is the same
  rw [show first = s from hfirst, show second = s from hsecond]
  obtain ⟨outcome, hleft⟩ : ∃ outcome, StateT.run (ExceptT.run x) s = (outcome, s) :=
    ⟨_, Prod.ext rfl (hx s rfl).1⟩
  obtain ⟨outcome', hright⟩ : ∃ outcome, StateT.run (ExceptT.run y) s = (outcome, s) :=
    ⟨_, Prod.ext rfl (hy s rfl).1⟩
  rw [run_bind, run_bind, hleft, hright]
  cases outcome with
  | error e =>
    cases outcome' with
    | error e' => exact .error
    | ok b =>
      dsimp only
      rw [run_bind, hleft]
      exact .error
  | ok a =>
    dsimp only
    rw [run_bind, hright]
    cases outcome' with
    | error e' => exact .error
    | ok b =>
      dsimp only
      rw [run_bind, hleft]
      exact .refl (fun _ => rfl) _

/-- What leaves a state as it is does the same twice. -/
theorem refl {P : α → Prop} {s : σ} {x : ExceptT Error (StateM σ) α}
    (hx : Keeps (fun state => state = s) P x) : RelatesAt s Eq x x := by
  refine of_keeps hx hx fun a b ha hb => ?_
  rw [ha, hb]
  exact Agree.refl (fun _ => rfl) _

end Relates

def SameStream (type type' : TypeTag) (table table' : Option String) : Prop :=
  (type = type' ∧ table = table') ∨ (type.isStream = false ∧ type'.isStream = false)

namespace SameStream

variable {type type' type'' : TypeTag} {table table' table'' : Option String}

theorem refl (type : TypeTag) (table : Option String) : SameStream type type table table :=
  .inl ⟨rfl, rfl⟩

theorem symm (h : SameStream type type' table table') : SameStream type' type table' table := by
  rcases h with ⟨rfl, rfl⟩ | ⟨hleft, hright⟩
  · exact .refl _ _
  · exact .inr ⟨hright, hleft⟩

theorem isStream_eq (h : SameStream type type' table table') : type.isStream = type'.isStream := by
  rcases h with ⟨rfl, -⟩ | ⟨hleft, hright⟩
  · rfl
  · rw [hleft, hright]

theorem trans (h : SameStream type type' table table')
    (h' : SameStream type' type'' table' table'') : SameStream type type'' table table'' := by
  rcases h with ⟨rfl, rfl⟩ | ⟨hleft, hright⟩
  · exact h'
  · exact .inr ⟨hleft, by rw [← h'.isStream_eq, hright]⟩

theorem eq_table_iff (h : SameStream type type' table table') :
    type = .table ↔ type' = .table := by
  rcases h with ⟨rfl, -⟩ | ⟨hleft, hright⟩
  · rfl
  · constructor
    · rintro rfl
      cases hleft
    · rintro rfl
      cases hright

end SameStream

abbrev Act.SameIn (s : State) (type type' : TypeTag) (table table' : Option String) {α : Type}
    (x : Act α) : Prop :=
  Relates (FramedAt s type table) (FramedAt s type' table') Eq x x

namespace Relates

variable {s : State} {α β : Type} {R : α → β → Prop} {type type' : TypeTag}
  {table table' : Option String}

theorem ask {f : Context → Except Error α} {g : Context → Except Error β}
    (h : ∀ c c', FramedAt s type table c → FramedAt s type' table' c' → Agree R (f c) (g c')) :
    Relates (FramedAt s type table) (FramedAt s type' table') R (Act.ask f) (Act.ask g) := by
  intro c c' hc hc'
  have hrun := Act.runFrom_ask f c
  have hrun' := Act.runFrom_ask g c'
  rw [Act.runFrom] at hrun hrun'
  rw [hrun, hrun']
  exact ⟨h c c' hc hc', hc, hc'⟩

theorem getContext : Relates (FramedAt s type table) (FramedAt s type' table')
    (fun c c' => c.type = type ∧ c'.type = type') get get :=
  fun _ _ hc hc' => ⟨.ok ⟨hc.type_eq, hc'.type_eq⟩, hc, hc'⟩

theorem ofEval {x : Eval α} {y : Eval β}
    (h : RelatesAt s R x y) :
    Relates (FramedAt s type table) (FramedAt s type' table') R (Act.ofEval x) (Act.ofEval y) := by
  intro c c' hc hc'
  have hboth := h c.state c'.state hc.state hc'.state
  exact ⟨hboth.1, ⟨hc.type_eq, hc.table_eq, hboth.2.1⟩, ⟨hc'.type_eq, hc'.table_eq, hboth.2.2⟩⟩

/-- Which row is recorded does not matter here. -/
theorem setRowIndex (index index' : Option Nat) :
    Relates (FramedAt s type table) (FramedAt s type' table') (fun _ _ => True)
      (Act.setRowIndex index) (Act.setRowIndex index') :=
  fun _ _ hc hc' => ⟨.ok trivial, ⟨hc.type_eq, hc.table_eq, hc.state⟩,
    ⟨hc'.type_eq, hc'.table_eq, hc'.state⟩⟩

theorem setRowId (id id' : Option Value) :
    Relates (FramedAt s type table) (FramedAt s type' table') (fun _ _ => True)
      (Act.setRowId id) (Act.setRowId id') :=
  fun _ _ hc hc' => ⟨.ok trivial, ⟨hc.type_eq, hc.table_eq, hc.state⟩,
    ⟨hc'.type_eq, hc'.table_eq, hc'.state⟩⟩

theorem resolve {a : Argument} (h : a.Leaves s) :
    (Act.resolve a).SameIn s type type' table table' := by
  apply ofEval
  cases a with
  | undefined => exact throw
  | datum v => exact pure rfl
  | deferred run => exact refl (h none (by simp))

theorem evalRow {a : Argument} (h : a.Leaves s) (row : Value) :
    (Act.evalRow row a).SameIn s type type' table table' := by
  apply ofEval
  cases a with
  | undefined => exact throw
  | datum v => exact pure rfl
  | deferred run => exact refl (h (some row) (by simp))

theorem resolveAll {args : List Argument}
    (h : ∀ a ∈ args, a.Leaves s) :
    (Act.resolveAll args).SameIn s type type' table table' :=
  mapM_eq fun a ha => resolve (h a ha)

end Relates

end TableQuery
