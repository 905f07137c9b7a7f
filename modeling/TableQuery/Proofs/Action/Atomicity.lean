import Mathlib
import TableQuery.Proofs.PrimaryKey.Writing
import TableQuery.Proofs.Term.Evaluation

namespace TableQuery

def Argument.LeavesTables (store : Store) : Argument → Prop
  | .deferred run => ∀ row s, s.store = store → ((run row).runFrom s).2.store = store
  | _ => True

-- A failure keeps the invariant; a success need not.
def Atomic {σ α : Type} (I : σ → Prop) (x : ExceptT Error (StateM σ) α) : Prop :=
  ∀ s, I s → ∀ e, (StateT.run (ExceptT.run x) s).1 = .error e →
    I (StateT.run (ExceptT.run x) s).2

def Succeeds {σ α : Type} (I : σ → Prop) (x : ExceptT Error (StateM σ) α) : Prop :=
  ∀ s, I s → (∃ a, (StateT.run (ExceptT.run x) s).1 = .ok a) ∧ I (StateT.run (ExceptT.run x) s).2

section

variable {σ α β : Type} {I J : σ → Prop} {P : α → Prop} {x : ExceptT Error (StateM σ) α}
  {f : α → ExceptT Error (StateM σ) β}

theorem Keeps.atomic (h : Keeps I P x) : Atomic I x :=
  fun s hs _ _ => (h s hs).1

theorem Atomic.pure (a : α) : Atomic I (Pure.pure a) :=
  fun _ hs _ _ => hs

/-- As long as the first part keeps the invariant, only the second may break it. -/
theorem Atomic.bind (hx : Keeps I P x) (hf : ∀ a, P a → Atomic I (f a)) : Atomic I (x >>= f) := by
  intro s hs
  have hfirst := hx s hs
  rw [run_bind]
  rcases hout : StateT.run (ExceptT.run x) s with ⟨e | a, next⟩
  · rw [hout] at hfirst
    exact fun _ _ => hfirst.1
  · rw [hout] at hfirst
    exact hf a (hfirst.2 a rfl) next hfirst.1

theorem Atomic.map (hx : Atomic I x) (g : α → β) : Atomic I (do return g (← x)) := by
  intro s hs
  have hfirst := hx s hs
  rw [run_bind]
  rcases hout : StateT.run (ExceptT.run x) s with ⟨e | a, next⟩
  · rw [hout] at hfirst
    exact fun _ _ => hfirst e rfl
  · exact fun _ he => nomatch he

/-- What does not fail is atomic, whatever it writes. -/
theorem Succeeds.atomic (h : Succeeds J x) (hIJ : ∀ s, I s → J s) : Atomic I x := by
  intro s hs e he
  obtain ⟨a, ha⟩ := (h s (hIJ s hs)).1
  cases ha.symm.trans he

namespace Succeeds

theorem pure (a : α) : Succeeds I (Pure.pure a) :=
  fun _ hs => ⟨⟨a, rfl⟩, hs⟩

theorem bind (hx : Succeeds I x) (hf : ∀ a, Succeeds I (f a)) : Succeeds I (x >>= f) := by
  intro s hs
  have hfirst := hx s hs
  rw [run_bind]
  rcases hout : StateT.run (ExceptT.run x) s with ⟨e | a, next⟩
  · rw [hout] at hfirst
    exact nomatch hfirst.1
  · rw [hout] at hfirst
    exact hf a next hfirst.2

theorem foldlM {f : β → α → ExceptT Error (StateM σ) β} {xs : List α} (b : β)
    (h : ∀ b a, Succeeds I (f b a)) : Succeeds I (xs.foldlM f b) := by
  induction xs generalizing b with
  | nil => exact pure b
  | cons x rest ih =>
    rw [List.foldlM_cons]
    exact bind (h b x) ih

end Succeeds

end

structure Context.Bound (name : String) (c : Context) : Prop where
  table_eq : c.binding.table = some name
  isSome : (c.state.store.rows? name).isSome = true

namespace Succeeds

variable {name : String} {α : Type}

theorem ask {f : Context → Except Error α} (h : ∀ c : Context, c.Bound name → ∃ a, f c = .ok a) :
    Succeeds (Context.Bound name) (Act.ask f) := by
  intro c hc
  have hrun := Act.runFrom_ask f c
  rw [Act.runFrom] at hrun
  rw [hrun]
  exact ⟨h c hc, hc⟩

theorem rows : Succeeds (Context.Bound name) (Act.ask Context.rows) := by
  apply ask
  intro c hc
  obtain ⟨live, hlive⟩ := Option.isSome_iff_exists.mp hc.isSome
  exact ⟨live, Context.rows_eq_ok.mpr ⟨name, hc.table_eq, hlive⟩⟩

theorem locate (row : Value) :
    Succeeds (Context.Bound name) (Act.ask (Context.locate row)) := by
  apply ask
  intro c hc
  obtain ⟨live, hlive⟩ := Option.isSome_iff_exists.mp hc.isSome
  have hrows := Context.rows_eq_ok.mpr ⟨name, hc.table_eq, hlive⟩
  exact ⟨Context.position c.binding.rowIndex row live, by rw [Context.locate, hrows]; rfl⟩

theorem setRows (rows : List Value) : Succeeds (Context.Bound name) (Act.setRows rows) := by
  intro c hc
  have hrun := Act.runFrom_setRows rows c
  rw [Act.runFrom, hc.table_eq] at hrun
  rw [hrun]
  refine ⟨⟨(), rfl⟩, hc.table_eq, ?_⟩
  dsimp only
  rw [Store.rows?_load, if_pos rfl]
  rfl

theorem freshKey (rows : List Value) : Succeeds (Context.Bound name) (Act.freshKey rows) :=
  fun _ hc => ⟨⟨_, rfl⟩, hc.table_eq, hc.isSome⟩

theorem setRowIndex (index : Option Nat) :
    Succeeds (Context.Bound name) (Act.setRowIndex index) :=
  fun _ hc => ⟨⟨(), rfl⟩, hc.table_eq, hc.isSome⟩

end Succeeds

def HasTables (store : Store) (s : State) : Prop := s.store = store

def Store.Holds (store : Store) (table : Option String) : Prop :=
  ∃ name, table = some name ∧ (store.rows? name).isSome = true

section

variable {store : Store} {type : TypeTag} {table : Option String} {α : Type}

theorem Argument.LeavesTables.good {a : Argument} (h : a.LeavesTables store) :
    a.Good (HasTables store) fun _ => True := by
  cases a with
  | undefined => trivial
  | datum v => trivial
  | deferred run => exact fun row _ s hs => ⟨h row s hs, fun _ _ => trivial⟩

/-- Rows can be read only of a table that is there. -/
theorem Store.Holds.of_rows {c : Context} {live : List Value}
    (hc : Framed (HasTables store) type table c) (h : c.rows = .ok live) : store.Holds table := by
  obtain ⟨name, hname, hlive⟩ := Context.rows_eq_ok.mp h
  refine ⟨name, hc.table_eq ▸ hname, ?_⟩
  rw [← hc.state, hlive]
  rfl

theorem Keeps.rows_holds : Keeps (Framed (HasTables store) type table)
    (fun _ => store.Holds table) (Act.ask Context.rows) :=
  Keeps.ask fun _ hc _ h => .of_rows hc h

theorem Keeps.locate_holds (row : Value) : Keeps (Framed (HasTables store) type table)
    (fun _ => store.Holds table) (Act.ask (Context.locate row)) := by
  apply Keeps.ask
  intro c hc index h
  obtain ⟨live, hlive, -⟩ := exists_of_bind_ok h
  exact .of_rows hc hlive

/-- Writes to a bound table that is there do not fail. -/
theorem Atomic.of_holds {x : Act α} (h : store.Holds table)
    (hx : ∀ name, Succeeds (Context.Bound name) x) :
    Atomic (Framed (HasTables store) type table) x := by
  obtain ⟨name, hname, hthere⟩ := h
  refine (hx name).atomic fun c hc => ⟨hc.table_eq.trans hname, ?_⟩
  have hstore : c.state.store = store := hc.state
  rw [hstore]
  exact hthere

end

namespace Mutation

variable {store : Store} {type : TypeTag} {table : Option String} {name : String}
  {receiver row : Value} {rows : List Value} {arg : Argument}

theorem insertRow_succeeds (done : Inserted) (row : Fields) :
    Succeeds (Context.Bound name) (insertRow done row) := by
  unfold insertRow
  split
  · split
    · exact .pure _
    · exact .pure _
  · exact .bind (.freshKey _) fun _ => .pure _

/-- The rows are checked and the table is found before the first row goes in. -/
theorem insert_atomic (receiver : Value) (options : Argument)
    (harg : arg.Good (HasTables store) fun _ => True) :
    Atomic (Framed (HasTables store) type table) (insert receiver arg options) := by
  refine .bind Keeps.check fun _ _ => ?_
  refine .bind (Keeps.resolve harg) fun _ _ => ?_
  refine .bind (Keeps.ofExcept fun _ _ => trivial) fun rows (_ : True) => ?_
  refine .bind Keeps.rows_holds fun live hholds => ?_
  apply Atomic.of_holds hholds
  intro name
  refine .bind (.foldlM _ insertRow_succeeds) fun done => ?_
  exact .bind (.setRows _) fun _ => .pure _

theorem applyPatch_succeeds (index : Nat) (patch : Fields) :
    Succeeds (Context.Bound name) (applyPatch index patch) := by
  refine .bind .rows fun live => ?_
  split
  · split
    · exact .pure _
    · exact .bind (.setRows _) fun _ => .pure _
  · exact .pure _

/-- A patch that is refused has not been written, so what follows on it may fail. -/
theorem applyPatch_atomic {α : Type} {index : Nat} {patch : Fields} {f : Option Bool → Act α}
    (hsome : ∀ name changed, Succeeds (Context.Bound name) (f (some changed)))
    (hnone : Atomic (Framed (HasTables store) type table) (f none)) :
    Atomic (Framed (HasTables store) type table) (applyPatch index patch >>= f) := by
  unfold applyPatch
  rw [bind_assoc]
  refine .bind Keeps.rows_holds fun live hholds => ?_
  split
  · split
    · rw [pure_bind]
      exact hnone
    · rw [bind_assoc]
      apply Atomic.of_holds hholds
      intro name
      exact .bind (.setRows _) fun _ => hsome name _
  · rw [pure_bind]
    apply Atomic.of_holds hholds
    intro name
    exact hsome name _

theorem updateRow_atomic (harg : arg.Good (HasTables store) fun _ => True) :
    Atomic (Framed (HasTables store) type table) (updateRow row arg) := by
  refine .bind Keeps.check fun _ _ => ?_
  split
  · exact Atomic.pure _
  · refine .bind (Keeps.evalRow harg trivial) fun _ _ => ?_
    refine .bind (Keeps.ofExcept fun _ _ => trivial) fun patch (_ : True) => ?_
    refine .bind (Keeps.locate_holds row) fun found _ => ?_
    split
    · exact Atomic.pure _
    · apply applyPatch_atomic
      · intro name changed
        cases changed
        · exact .pure _
        · exact .pure _
      · exact Keeps.throw.atomic (P := fun _ => True)

theorem patchRow_succeeds (done : Tally) (row : Value) (patch : Fields) :
    Succeeds (Context.Bound name) (patchRow done row patch) := by
  refine .bind (.locate row) fun found => ?_
  split
  · exact .pure _
  · refine .bind (applyPatch_succeeds _ _) fun outcome => ?_
    split
    · exact .pure _
    · exact .pure _
    · exact .pure _

/-- All patches are built before the first row is written. The loop over the rows fails at the
first of them, if the table is not there, or not at all. -/
theorem updateRows_atomic (harg : arg.Good (HasTables store) fun _ => True) :
    Atomic (Framed (HasTables store) type table) (updateRows rows arg) := by
  refine .bind Keeps.check fun _ _ => ?_
  split
  · exact Atomic.pure _
  · refine .bind (P := fun _ => True) (Keeps.imp (Keeps.mapM (Q := fun _ => True) fun row _ => ?_)
      fun _ _ => trivial) fun patches _ => ?_
    · refine Keeps.bind (Keeps.evalRow harg trivial) fun _ _ => ?_
      exact Keeps.ofExcept fun _ _ => trivial
    · -- with the table there the loop cannot fail; without it no row is found, so none is written
      by_cases hholds : store.Holds table
      · apply Atomic.of_holds hholds
        intro name
        exact .bind (.foldlM _ fun done pair => patchRow_succeeds done pair.1 pair.2)
          fun _ => .pure _
      · refine .bind (P := fun _ => True) ?_ fun _ _ => Atomic.pure _
        apply Keeps.foldlM trivial
        intro done _ pair _
        exact Keeps.bind (Keeps.locate_holds pair.1) fun _ h => absurd h hholds

theorem update_atomic (options : Argument) (harg : arg.Good (HasTables store) fun _ => True) :
    Atomic (Framed (HasTables store) type table) (update receiver arg options) := by
  unfold update
  split
  · exact (updateRows_atomic harg).map _
  · exact (updateRow_atomic harg).map _

theorem deleteRow_atomic :
    Atomic (Framed (HasTables store) type table) (deleteRow row) := by
  unfold deleteRow
  split
  · exact Atomic.pure _
  · refine .bind Keeps.check fun _ _ => ?_
    refine .bind (Keeps.locate_holds row) fun found hholds => ?_
    split
    · exact Atomic.pure _
    · apply Atomic.of_holds hholds
      intro name
      refine .bind .rows fun live => ?_
      exact .bind (.setRows _) fun _ => .bind (.setRowIndex none) fun _ => .pure _

theorem deleteRows_atomic :
    Atomic (Framed (HasTables store) type table) (deleteRows rows) := by
  have hwrite (written : List Value → List Value) (report : List Value → Report) :
      Atomic (Framed (HasTables store) type table) (do
        let live ← Act.ask Context.rows
        Act.setRows (written live)
        return report live : Act Report) := by
    refine .bind Keeps.rows_holds fun live hholds => ?_
    apply Atomic.of_holds hholds
    intro name
    exact .bind (.setRows _) fun _ => .pure _
  refine .bind Keeps.getContext fun c _ => ?_
  split
  · exact hwrite (fun _ => []) fun live => .ofDeletedRows live.length
  · refine .bind Keeps.check fun _ _ => ?_
    split
    · exact Atomic.pure _
    · exact hwrite (remaining rows) fun live =>
        .ofDeletedRows (live.length - (remaining rows live).length)

theorem delete_atomic :
    Atomic (Framed (HasTables store) type table) (delete receiver) := by
  unfold delete
  split
  · exact deleteRows_atomic.map _
  · exact deleteRow_atomic.map _

/-- The mutations other than the replacement. -/
theorem entries_atomic {e : Entry} (he : e ∈ entries) (hother : e.name ≠ "replace")
    (receiver : Value) {args : List Argument}
    (hargs : ∀ a ∈ args, a.Good (HasTables store) fun _ => True) :
    Atomic (Framed (HasTables store) type table) (e.implementation.call receiver args) := by
  have hgood := Argument.good_getD hargs 0
  simp only [entries, List.mem_cons, List.not_mem_nil, or_false] at he
  -- no mutation looks at its options
  rcases he with rfl | rfl | rfl | rfl
  · exact insert_atomic receiver .undefined hgood
  · exact update_atomic .undefined hgood
  · exact absurd rfl hother
  · exact delete_atomic

end Mutation

/-- Whatever the receiver, the arguments, the context and the tables: an action that fails, other
than a replacement, leaves all tables as they were. -/
theorem Registry.store_of_invoke_error {action : String} (haction : action ≠ "replace")
    {receiver : Value} {args : List Argument} {c c' : Context} {e : Error}
    (hargs : ∀ a ∈ args, a.LeavesTables c.state.store)
    (h : (builtin.invoke action receiver args).runFrom c = (.error e, c')) :
    c'.state.store = c.state.store := by
  have hgood (a : Argument) (ha : a ∈ args) := (hargs a ha).good
  have hatomic : Atomic (Framed (HasTables c.state.store) c.type c.binding.table)
      (builtin.invoke action receiver args) := by
    refine .bind (P := fun d => builtin.describe action = .ok d) (Keeps.ofExcept fun _ hd => hd)
      fun d hd => ?_
    refine .bind (Keeps.ofExcept fun _ _ => trivial) fun _ (_ : True) => ?_
    obtain ⟨entry, hentry, rfl, rfl⟩ := describe_builtin hd
    rcases mutation_or_not_writes hentry with hwrites | hreads
    · exact Mutation.entries_atomic hwrites haction receiver hgood
    · have hkeeps := keeps_of_not_writes (I := HasTables c.state.store) Value.hereditary_true
        hentry hreads
      exact (hkeeps receiver args _ _ trivial hgood).atomic
  have hstart : Framed (HasTables c.state.store) c.type c.binding.table c := ⟨rfl, rfl, rfl⟩
  have hend := hatomic c hstart e (congrArg Prod.fst h)
  have hnext : ((builtin.invoke action receiver args).runFrom c).2.state.store = c.state.store :=
    hend.state
  rwa [h] at hnext

/-- The patch for the first row is fine, but the second has none. -/
theorem Registry.store_of_invoke_error_update :
    let first : Value := .object [("id", .bool true), ("v", .object [("w", .null)])]
    let second : Value := .object [("id", .bool false), ("v", .null)]
    let patch : Argument :=
      .deferred fun row => (Term.call "bracket" .row [.datum (.string "v")]).run row
    let c : Context := ⟨.table, { table := some "t" },
      ⟨⟨[("t", [first, second])]⟩, ⟨fun _ _ => ""⟩, 0⟩⟩
    let out := (builtin.invoke "update" (.array [first, second]) [patch]).runFrom c
    "update" ≠ "replace" ∧ (∀ a ∈ [patch], a.LeavesTables c.state.store) ∧
      out.1 = .error (.unaccepted .patch .null) ∧ out.2.state.store = c.state.store := by
  intro first second patch c out
  have hother : "update" ≠ "replace" := by decide
  have hpatch : ∀ a ∈ [patch], a.LeavesTables c.state.store := by
    intro a ha
    obtain rfl := List.mem_singleton.mp ha
    intro row s hs
    rw [Term.run_state rfl]
    exact hs
  have herror : out.1 = .error (.unaccepted .patch .null) := by cbv
  have hrun : (builtin.invoke "update" (.array [first, second]) [patch]).runFrom c =
      (.error (.unaccepted .patch .null), out.2) := Prod.ext herror rfl
  exact ⟨hother, hpatch, herror, store_of_invoke_error hother hpatch hrun⟩

end TableQuery
