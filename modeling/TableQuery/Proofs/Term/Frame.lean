import TableQuery.Proofs.Action.Atomicity

namespace TableQuery

structure ModifiesOnly (store : Store) (names : List String) (s : State) : Prop where
  keys_eq : s.store.tables.map Prod.fst = store.tables.map Prod.fst
  rows_eq : ∀ name, name ∉ names → s.store.rows? name = store.rows? name

abbrev Act.Within (store : Store) (names : List String) (type : TypeTag) (table : Option String)
    {α : Type} (x : Act α) : Prop :=
  Keeps (Framed (ModifiesOnly store names) type table) (fun _ => True) x

namespace Store

theorem isSome_rows?_iff {store : Store} {name : String} :
    (store.rows? name).isSome = true ↔ name ∈ store.tables.map Prod.fst := by
  unfold rows?
  induction store.tables with
  | nil => simp
  | cons pair rest ih =>
    obtain ⟨k, rows⟩ := pair
    rw [Assoc.lookup_cons]
    by_cases hname : name = k
    · simp [hname]
    · rw [if_neg hname, ih]
      simp [hname]

/-- The names of the tables, without their rows. -/
theorem names_eq (store : Store) :
    store.names = (store.tables.map Prod.fst).mergeSort fun a b => decide (a ≤ b) :=
  List.map_mergeSort fun _ _ _ _ => rfl

end Store

namespace ModifiesOnly

variable {store : Store} {names : List String} {type : TypeTag} {table : Option String}

/-- A write to a table that is there makes no new one. -/
theorem load {s : State} (h : ModifiesOnly store names s) {name : String} (hname : name ∈ names)
    (hthere : (store.rows? name).isSome = true) (rows : List Value) :
    ModifiesOnly store names { s with store := s.store.load name rows } := by
  constructor
  · have hkey : name ∈ s.store.tables.map Prod.fst := by
      rw [h.keys_eq]
      exact Store.isSome_rows?_iff.mp hthere
    calc (s.store.load name rows).tables.map Prod.fst
        = s.store.tables.map Prod.fst := by rw [Store.load, Assoc.keys_set, if_pos hkey]
      _ = store.tables.map Prod.fst := h.keys_eq
  · intro other hother
    have hne : other ≠ name := fun heq => hother (heq ▸ hname)
    rw [Store.rows?_load, if_neg hne]
    exact h.rows_eq other hother

/-- Whoever has read rows knows that the bound table is there, now as in the beginning. -/
theorem rows_keeps : Keeps (Framed (ModifiesOnly store names) type table)
    (fun _ => store.Holds table) (Act.ask Context.rows) := by
  apply Keeps.ask
  intro c hc live hlive
  obtain ⟨name, hname, hfound⟩ := Context.rows_eq_ok.mp hlive
  refine ⟨name, hc.table_eq ▸ hname, ?_⟩
  have hkey : name ∈ c.state.store.tables.map Prod.fst :=
    Store.isSome_rows?_iff.mp (by rw [hfound]; rfl)
  rw [hc.state.keys_eq] at hkey
  exact Store.isSome_rows?_iff.mpr hkey

variable (htable : ∀ name ∈ table, name ∈ names)

include htable

theorem setRows_keeps (hholds : store.Holds table) (rows : List Value) :
    (Act.setRows rows).Within store names type table := by
  obtain ⟨name, rfl, hthere⟩ := hholds
  intro c hc
  have hrun := Act.runFrom_setRows rows c
  rw [Act.runFrom, hc.table_eq] at hrun
  rw [hrun]
  exact ⟨⟨hc.type_eq, hc.table_eq, hc.state.load (htable name rfl) hthere rows⟩,
    fun _ _ => trivial⟩

/-- Rows are read, written in another form and used further. -/
theorem rewrite_keeps {α : Type} {written : List Value → List Value} {f : List Value → Act α}
    (hf : ∀ live, (f live).Within store names type table) :
    Keeps (Framed (ModifiesOnly store names) type table) (fun _ => True) (do
      let live ← Act.ask Context.rows
      Act.setRows (written live)
      f live) := by
  refine Keeps.bind rows_keeps fun live hholds => ?_
  exact Keeps.bind (setRows_keeps htable hholds _) fun _ _ => hf live

end ModifiesOnly

namespace Mutation

variable {store : Store} {names : List String} {type : TypeTag} {table : Option String}
  {receiver row : Value} {rows : List Value} {arg : Argument}

theorem insertRow_frame (done : Inserted) (row : Fields) :
    (insertRow done row).Within store names type table := by
  unfold insertRow
  split
  · split
    · exact Keeps.pure trivial
    · exact Keeps.pure trivial
  · -- drawing a key leaves the tables alone
    have hkey : (Act.freshKey done.rows).Within store names type table :=
      Keeps.freshKey fun s hs => ⟨⟨hs.keys_eq, hs.rows_eq⟩, trivial⟩
    exact Keeps.bind hkey fun _ _ => Keeps.pure trivial

section

variable (htable : ∀ name ∈ table, name ∈ names)

include htable

theorem insert_frame (receiver : Value) (options : Argument)
    (harg : arg.Good (ModifiesOnly store names) fun _ => True) :
    (insert receiver arg options).Within store names type table := by
  refine Keeps.bind Keeps.check fun _ _ => ?_
  refine Keeps.bind (Keeps.resolve harg) fun _ _ => ?_
  refine Keeps.bind (Keeps.ofExcept fun _ _ => trivial) fun rows (_ : True) => ?_
  refine Keeps.bind ModifiesOnly.rows_keeps fun live hholds => ?_
  have hloop : (rows.foldlM insertRow ⟨live, 0, []⟩).Within store names type table :=
    Keeps.foldlM trivial fun done _ row _ => insertRow_frame done row
  refine Keeps.bind hloop fun done _ => ?_
  exact Keeps.map (ModifiesOnly.setRows_keeps htable hholds _) fun _ _ => trivial

theorem applyPatch_frame (index : Nat) (patch : Fields) :
    (applyPatch index patch).Within store names type table := by
  refine Keeps.bind ModifiesOnly.rows_keeps fun live hholds => ?_
  split
  · split
    · exact Keeps.pure trivial
    · exact Keeps.map (ModifiesOnly.setRows_keeps htable hholds _) fun _ _ => trivial
  · exact Keeps.pure trivial

theorem update_frame (options : Argument)
    (harg : arg.Good (ModifiesOnly store names) fun _ => True) :
    (update receiver arg options).Within store names type table := by
  have happly (index : Nat) (patch : Fields) (_ : True) :
      (applyPatch index patch).Within store names type table := applyPatch_frame htable index patch
  exact (update_of_applyPatch happly Value.hereditary_true trivial options harg).imp
    fun _ _ => trivial

theorem deleteRow_frame :
    (deleteRow row).Within store names type table := by
  unfold deleteRow
  split
  · exact Keeps.pure trivial
  · refine Keeps.bind Keeps.check fun _ _ => ?_
    refine Keeps.bind Keeps.check fun found _ => ?_
    split
    · exact Keeps.pure trivial
    · apply ModifiesOnly.rewrite_keeps htable
      intro live
      exact Keeps.map (Keeps.setRowIndex none) fun _ _ => trivial

theorem deleteRows_frame :
    (deleteRows rows).Within store names type table := by
  refine Keeps.bind Keeps.getContext fun c _ => ?_
  split
  · exact ModifiesOnly.rewrite_keeps htable fun live => Keeps.pure trivial
  · refine Keeps.bind Keeps.check fun _ _ => ?_
    split
    · exact Keeps.pure trivial
    · exact ModifiesOnly.rewrite_keeps htable fun live => Keeps.pure trivial

theorem delete_frame :
    (delete receiver).Within store names type table := by
  unfold delete
  split
  · exact Keeps.map (deleteRows_frame htable) fun _ _ => trivial
  · exact Keeps.map (deleteRow_frame htable) fun _ _ => trivial

theorem replaceMissing_frame (harg : arg.Good (ModifiesOnly store names) fun _ => True) :
    (replaceMissing arg).Within store names type table := by
  refine Keeps.bind (Keeps.resolve harg) fun _ _ => ?_
  refine Keeps.bind (Keeps.ofExcept fun _ _ => trivial) fun key (_ : True) => ?_
  refine Keeps.bind ModifiesOnly.rows_keeps fun live hholds => ?_
  split
  · exact Keeps.pure trivial
  · exact Keeps.map (ModifiesOnly.setRows_keeps htable hholds _) fun _ _ => trivial

theorem replaceRow_frame (harg : arg.Good (ModifiesOnly store names) fun _ => True)
    (done : Tally) (row : Value) :
    (replaceRow arg done row).Within store names type table := by
  refine Keeps.bind (Keeps.evalRow harg trivial) fun _ _ => ?_
  refine Keeps.bind (Keeps.ofExcept fun _ _ => trivial) fun key (_ : True) => ?_
  split
  · exact Keeps.pure trivial
  · split
    · exact Keeps.pure trivial
    · refine Keeps.bind Keeps.check fun found _ => ?_
      split
      · exact Keeps.pure trivial
      · exact ModifiesOnly.rewrite_keeps htable fun live => Keeps.pure trivial

theorem replace_frame (options : Argument)
    (harg : arg.Good (ModifiesOnly store names) fun _ => True) :
    (replace receiver arg options).Within store names type table := by
  have hreport {x : Act Report}
      (hx : x.Within store names type table) :
      (do return (← x).toValue).Within store names type table :=
    Keeps.map hx fun _ _ => trivial
  have hrows (rows : List Value) :
      (replaceRows rows arg).Within store names type table := by
    refine Keeps.map (P := fun _ => True) ?_ fun _ _ => trivial
    exact Keeps.foldlM trivial fun done _ row _ => replaceRow_frame htable harg done row
  refine Keeps.bind Keeps.check fun _ _ => ?_
  dsimp only
  -- by whether the value is `null`, which deletes, and by the kind of receiver
  split
  · split
    · exact hreport (Keeps.pure trivial)
    · exact hreport (deleteRows_frame htable)
    · exact hreport (deleteRow_frame htable)
  · split
    · exact hreport (replaceMissing_frame htable harg)
    · exact hreport (hrows _)
    · exact hreport (hrows _)

end

/-- A mutation writes to the table that its receiver is bound to, or not at all. -/
theorem entries_frame {e : Entry} (he : e ∈ entries) :
    e.implementation.KeepsOn (fun name => name ∈ names) (ModifiesOnly store names)
      fun _ => True := by
  intro receiver args type table htable _ hargs
  have hgood := Argument.good_getD hargs 0
  simp only [entries, List.mem_cons, List.not_mem_nil, or_false] at he
  -- no mutation looks at its options
  rcases he with rfl | rfl | rfl | rfl
  · exact insert_frame htable receiver .undefined hgood
  · exact update_frame htable .undefined hgood
  · exact replace_frame htable .undefined hgood
  · exact delete_frame htable

end Mutation

namespace Term

/-- All along the evaluation of a term only tables that it names are written to. -/
theorem modifiesOnly_keeps (t : Term) (current : Option Value) (store : Store) :
    Keeps (ModifiesOnly store t.tables) (fun _ => True) (t.evaluate current) := by
  have hactions : ∀ a ∈ t.actions, ∀ d, Registry.builtin.describe a = .ok d →
      d.implementation.KeepsOn (fun name => name ∈ t.tables) (ModifiesOnly store t.tables)
        fun _ => True := by
    intro a _ d hd
    obtain ⟨e, he, -, rfl⟩ := Registry.describe_builtin hd
    rcases mutation_or_not_writes he with hwrites | hreads
    · exact Mutation.entries_frame hwrites
    · exact (keeps_of_not_writes Value.hereditary_true he hreads).on _
  have hcurrent : ∀ v ∈ current, True := fun _ _ => trivial
  have hkeeps := evaluateIn_keepsOn Value.hereditary_true (by simp) t (fun _ hname => hname)
    (by simp) hactions hcurrent
  exact hkeeps.imp fun _ _ => trivial

/-- Whatever the state, the row and the outcome: the names of the tables are the same after a query,
the tables that it does not name have the same rows, and if it calls no action that writes, at any
depth, all of the store is the same. -/
theorem evaluate_frame (t : Term) (current : Option Value) (s : State) :
    let after := ((t.evaluate current).runFrom s).2.store
    after.names = s.store.names ∧
      (∀ name, name ∉ t.tables → after.rows? name = s.store.rows? name) ∧
      (t.mutates = false → after = s.store) := by
  intro after
  have hstart : ModifiesOnly s.store t.tables s := ⟨rfl, fun _ _ => rfl⟩
  have hend : ModifiesOnly s.store t.tables ((t.evaluate current).runFrom s).2 :=
    (modifiesOnly_keeps t current s.store s hstart).1
  refine ⟨?_, hend.rows_eq, fun hreads => ?_⟩
  · rw [Store.names_eq, Store.names_eq, hend.keys_eq]
  · exact congrArg State.store (evaluate_state hreads current s)

/-- A row goes into one table before the query fails at its key; the other table stays as it is, and
a count changes none. -/
theorem evaluate_frame_insert :
    let row : Value := .object [("id", .bool true)]
    let other : Value := .object [("id", .bool false)]
    let write : Term := .call "insert" (.table "t") [.object [("id", .row)]]
    let t : Term := .call "bracket" write [.datum .null]
    let read : Term := .call "count" (.table "u") []
    let s : State := ⟨⟨[("t", [row]), ("u", [other])]⟩, ⟨fun _ _ => ""⟩, 0⟩
    let out := (t.evaluate (some (.bool false))).runFrom s
    out.1.toOption.isNone = true ∧ (out.2.store.rows? "t").map List.length = some 2 ∧
      out.2.store.names = s.store.names ∧ out.2.store.rows? "u" = some [other] ∧
      ((read.evaluate none).runFrom s).2.store = s.store := by
  intro row other write t read s out
  have hframe := evaluate_frame t (some (.bool false)) s
  have hother : "u" ∉ t.tables := by decide
  have hrows : out.2.store.rows? "u" = s.store.rows? "u" := hframe.2.1 "u" hother
  refine ⟨by cbv, by cbv, hframe.1, hrows, ?_⟩
  exact (evaluate_frame read none s).2.2 rfl

end Term

end TableQuery
