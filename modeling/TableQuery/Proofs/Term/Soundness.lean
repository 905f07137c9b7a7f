import TableQuery.Proofs.Selection.Selected
import TableQuery.Proofs.Term.Frame

/-!
Type soundness of evaluation (`Term.evaluate_sound`): value, type and binding of every result fit
together, also if the query writes. The type is computed from declared types, the binding is left
behind by the actions; what joins the two is that an action that gives a row set records no row.
-/

namespace TableQuery

namespace TypeTag

/-- A result that is bound to no table is a datum. -/
theorem resolve_eq_datum {declared receiver : TypeTag} {numericKey : Bool}
    (h : (declared.resolve receiver numericKey).isSelection = false) :
    declared.resolve receiver numericKey = .datum := by
  unfold resolve at h ⊢
  cases declared with
  | datum => rfl
  | array => rfl
  | object => rfl
  | table => cases h
  | selection => cases h
  | selectionArray => cases h
  | sequence =>
    dsimp only at h ⊢
    split at h
    · cases h
    · next hstream => exact if_neg hstream
  | bracket =>
    dsimp only at h ⊢
    split at h
    · cases h
    · next hrow => exact if_neg hrow

/-- Only an action that is declared to do so gives a row set. -/
theorem declared_of_resolve {declared receiver : TypeTag} {numericKey : Bool}
    (h : declared.resolve receiver numericKey = .selectionArray) :
    declared = .sequence ∨ declared = .selectionArray := by
  cases declared with
  | datum => cases h
  | array => cases h
  | object => cases h
  | table => cases h
  | selection => cases h
  | selectionArray => exact .inr rfl
  | sequence => exact .inl rfl
  | bracket =>
    change (if numericKey && receiver.isStream then selection else datum) = selectionArray at h
    by_cases hrow : (numericKey && receiver.isStream) = true
    · rw [if_pos hrow] at h
      cases h
    · rw [if_neg hrow] at h
      cases h

end TypeTag

namespace Evaluated

/-- Value, type and binding of a result fit together, for a store with the given tables. -/
inductive Sound (names : List String) : Evaluated → Prop
  | datum (v : Value) : Sound names ⟨v, .datum, {}⟩
  | table {name : String} (hname : name ∈ names) (rows : List Value) :
    Sound names ⟨.array rows, .table, { table := some name }⟩
  | rowSet {name : String} (hname : name ∈ names) (rows : List Value) :
    Sound names ⟨.array rows, .selectionArray, { table := some name }⟩
  | row {name : String} (hname : name ∈ names) (v : Value) (index : Option Nat)
    (id : Option Value) : Sound names ⟨v, .selection, ⟨some name, index, id⟩⟩

namespace Sound

variable {names : List String} {e : Evaluated}

/-- What a result is bound to is there. -/
theorem mem_names (h : e.Sound names) : ∀ name ∈ e.binding.table, name ∈ names := by
  intro name hname
  cases h with
  | datum v => cases hname
  | table hmem rows => exact Option.mem_some_iff.mp hname ▸ hmem
  | rowSet hmem rows => exact Option.mem_some_iff.mp hname ▸ hmem
  | row hmem v index id => exact Option.mem_some_iff.mp hname ▸ hmem

theorem exists_table (h : e.Sound names) (htype : e.type.isSelection = true) :
    ∃ name ∈ names, e.binding.table = some name := by
  cases h with
  | datum v => cases htype
  | table hmem rows => exact ⟨_, hmem, rfl⟩
  | rowSet hmem rows => exact ⟨_, hmem, rfl⟩
  | row hmem v index id => exact ⟨_, hmem, rfl⟩

/-- A stream is an array and no row of it is picked. -/
theorem of_isStream (h : e.Sound names) (htype : e.type.isStream = true) :
    (∃ rows, e.value = .array rows) ∧ e.binding = { table := e.binding.table } := by
  cases h with
  | datum v => cases htype
  | table hmem rows => exact ⟨⟨rows, rfl⟩, rfl⟩
  | rowSet hmem rows => exact ⟨⟨rows, rfl⟩, rfl⟩
  | row hmem v index id => cases htype

theorem mono {names' : List String} (h : e.Sound names) (hsub : ∀ name ∈ names, name ∈ names') :
    e.Sound names' := by
  cases h with
  | datum v => exact .datum v
  | table hmem rows => exact .table (hsub _ hmem) rows
  | rowSet hmem rows => exact .rowSet (hsub _ hmem) rows
  | row hmem v index id => exact .row (hsub _ hmem) v index id

end Sound

end Evaluated

def Unpicked (table : Option String) (c : Context) : Prop := c.binding = { table := table }

namespace Unpicked

variable {table : Option String} {α : Type}

theorem ofEval (x : Eval α) : Keeps (Unpicked table) (fun _ => True) (Act.ofEval x) :=
  fun _ hc => ⟨hc, fun _ _ => trivial⟩

theorem ask (f : Context → Except Error α) :
    Keeps (Unpicked table) (fun _ => True) (Act.ask f) := by
  intro c hc
  have hrun := Act.runFrom_ask f c
  rw [Act.runFrom] at hrun
  rw [hrun]
  exact ⟨hc, fun _ _ => trivial⟩

theorem ofExcept (x : Except Error α) :
    Keeps (Unpicked table) (fun _ => True) (MonadExcept.ofExcept x) :=
  Keeps.ofExcept fun _ _ => trivial

theorem resolve (a : Argument) : Keeps (Unpicked table) (fun _ => True) (Act.resolve a) :=
  ofEval a.resolve

theorem resolveAll (args : List Argument) :
    Keeps (Unpicked table) (fun _ => True) (Act.resolveAll args) :=
  (Keeps.mapM fun a _ => resolve a).imp fun _ _ => trivial

variable {receiver : Value} {arg : Argument} {args : List Argument}

theorem named (op : List String → Value → Except Error Value) :
    Keeps (Unpicked table) (fun _ => True) (Access.named op receiver args) := by
  refine Keeps.bind (resolveAll args) fun vs _ => ?_
  exact Keeps.bind (ofExcept _) fun names _ => ofExcept _

theorem slice : Keeps (Unpicked table) (fun _ => True) (Range.slice receiver args) := by
  refine Keeps.bind (ofExcept _) fun rows _ => ?_
  refine Keeps.bind (resolveAll args) fun vs _ => ?_
  exact Keeps.map (ofExcept _) fun _ _ => trivial

theorem limit : Keeps (Unpicked table) (fun _ => True) (Range.limit receiver arg) := by
  refine Keeps.bind (resolve arg) fun v _ => ?_
  refine Keeps.bind (ofExcept _) fun n _ => ?_
  split
  · exact Keeps.bind (P := fun _ => False) Keeps.throw fun _ h => h.elim
  · exact Keeps.bind (ofExcept _) fun rows _ => Keeps.pure trivial

theorem filter : Keeps (Unpicked table) (fun _ => True) (Range.filter receiver arg) := by
  refine Keeps.bind (ofExcept _) fun rows _ => ?_
  split
  · next run =>
    have hflags : Keeps (Unpicked table) (fun _ => True) (Range.flags run rows) :=
      (Keeps.mapM (Q := fun _ => True) fun row _ => Keeps.map (ofEval _) fun _ _ => trivial).imp
        fun _ _ => trivial
    rw [Range.rowsWhere_bind]
    exact Keeps.map hflags fun _ _ => trivial
  · exact Keeps.map (resolve arg) fun _ _ => trivial

theorem orderBy : Keeps (Unpicked table) (fun _ => True) (Range.orderBy receiver arg) := by
  refine Keeps.bind (resolve arg) fun v _ => ?_
  refine Keeps.bind (ofExcept _) fun name _ => ?_
  refine Keeps.bind (ofExcept _) fun rows _ => ?_
  exact Keeps.map (ofExcept _) fun _ _ => trivial

/-- What was recorded of a row is cleared. -/
theorem getAll : Keeps (Unpicked table) (fun _ => True) (Selection.getAll receiver args) := by
  have hindex : Keeps (Unpicked table) (fun _ => True) (Act.setRowIndex none) :=
    fun c hc => ⟨by rw [Unpicked] at hc ⊢; exact congrArg (fun b : Binding =>
      { b with rowIndex := none }) hc, fun _ _ => trivial⟩
  have hid : Keeps (Unpicked table) (fun _ => True) (Act.setRowId none) :=
    fun c hc => ⟨by rw [Unpicked] at hc ⊢; exact congrArg (fun b : Binding =>
      { b with rowId := none }) hc, fun _ _ => trivial⟩
  refine Keeps.bind (ask _) fun _ _ => ?_
  refine Keeps.bind hindex fun _ _ => ?_
  refine Keeps.bind hid fun _ _ => ?_
  refine Keeps.bind (resolveAll args) fun vs _ => ?_
  refine Keeps.bind (ofExcept _) fun index _ => ?_
  refine Keeps.bind (ofExcept _) fun _ _ => ?_
  exact Keeps.map (ofExcept _) fun _ _ => trivial

/-- An action that gives a row set records no row. -/
theorem of_entry {e : Entry} (he : e ∈ catalogue) (hread : e.name ∉ Term.writers)
    (htype : e.type = .sequence ∨ e.type = .selectionArray) :
    Keeps (Unpicked table) (fun _ => True) (e.implementation.call receiver args) := by
  have hresolve : (e.type.resolve .table false).isSelection = true := by
    rcases htype with h | h <;> rw [h] <;> rfl
  have hentries := entry_of_isSelection he hread hresolve
  simp only [List.mem_append] at hentries
  rcases hentries with (haccess | hrange) | hselection
  · simp only [Access.entries, List.mem_cons, List.not_mem_nil, or_false] at haccess
    rcases haccess with rfl | rfl | rfl | rfl | rfl | rfl | rfl
    case inr.inr.inr.inl => exact named Access.hasFields
    all_goals rcases htype with h | h <;> cases h
  · simp only [Range.entries, List.mem_cons, List.not_mem_nil, or_false] at hrange
    rcases hrange with rfl | rfl | rfl | rfl | rfl | rfl
    · exact slice
    · exact limit
    · rcases htype with h | h <;> cases h
    · rcases htype with h | h <;> cases h
    · exact filter
    · exact orderBy
  · simp only [Selection.entries, List.mem_cons, List.not_mem_nil, or_false] at hselection
    rcases hselection with rfl | rfl
    · rcases htype with h | h <;> cases h
    · exact getAll

end Unpicked

abbrev Standing (store : Store) : State → Prop := ModifiesOnly store (store.tables.map Prod.fst)

namespace Evaluated.Sound

variable {names : List String} {receiver picked : Evaluated}

/-- What is picked from a sound receiver is sound, as long as a row set is bound to no row. -/
theorem of_picks (h : receiver.Sound names)
    (hpicks : Picks picked.type receiver.type receiver.value picked.value)
    (htable : picked.binding.table = receiver.binding.table)
    (hrowSet : picked.type = .selectionArray →
      picked.binding = { table := receiver.binding.table }) : picked.Sound names := by
  obtain ⟨v, type, binding⟩ := picked
  obtain ⟨hstream, hpicked⟩ := hpicks
  have htype : receiver.type.isSelection = true := by
    cases htype : receiver.type <;> rw [htype] at hstream <;> first | rfl | cases hstream
  obtain ⟨name, hname, hbound⟩ := h.exists_table htype
  dsimp only at hpicked htable hrowSet
  cases type
  case selection =>
    obtain ⟨table, index, id⟩ := binding
    cases htable.trans hbound
    exact .row hname v index id
  case selectionArray =>
    obtain ⟨rows, kept, -, rfl, -⟩ := hpicked
    rw [hrowSet rfl, hbound]
    exact .rowSet hname kept
  -- nothing else is picked from a table
  all_goals exact hpicked.elim

end Evaluated.Sound

namespace Term

variable {store : Store}

/-- A call keeps value, type and binding together. The split is on the type of the result: a datum
is bound to nothing, and what is bound was picked from the receiver by an action that does not
write. -/
theorem apply_sound {e : Entry} (he : e ∈ catalogue)
    (hd : Registry.builtin.describe e.name = .ok ⟨e.arity, e.type, e.implementation⟩)
    {receiver : Evaluated} {args : List Argument}
    (hreceiver : receiver.Sound (store.tables.map Prod.fst))
    (hargs : ∀ a ∈ args, a.Good (Standing store) fun _ => True) :
    Keeps (Standing store) (Evaluated.Sound (store.tables.map Prod.fst))
      (Registry.builtin.apply e.name receiver args e.type) := by
  let result := e.type.resolve receiver.type ((args.head?).any Argument.isNumber)
  have hinvoke {J : Context → Prop} {Q : Value → Prop}
      (h : Keeps J Q (e.implementation.call receiver.value args)) :
      Keeps J Q (Registry.builtin.invoke e.name receiver.value args) := by
    refine Registry.invoke_keeps fun d hd' => ?_
    cases hd.symm.trans hd'
    exact h
  -- whatever the action, its table stands
  have hframe : e.implementation.KeepsOn (fun name => name ∈ store.tables.map Prod.fst)
      (Standing store) fun _ => True := by
    rcases mutation_or_not_writes he with hwrites | hreads
    · exact Mutation.entries_frame hwrites
    · exact (keeps_of_not_writes Value.hereditary_true he hreads).on _
  have hstands := hframe receiver.value args receiver.type receiver.binding.table
    hreceiver.mem_names trivial hargs
  by_cases hbound : result.isSelection = true
  · have hreads : e.name ∉ writers := by
      intro hwrites
      have hdatum : ∀ d ∈ catalogue, d.name ∈ writers → d.type = .datum := by decide
      change (e.type.resolve _ _).isSelection = true at hbound
      rw [hdatum e he hwrites] at hbound
      cases hbound
    have hpicks : Keeps (Framed (Standing store) receiver.type receiver.binding.table)
        (Picks result receiver.type receiver.value) (e.implementation.call receiver.value args) :=
      picks_keeps Value.hereditary_true he hreads trivial hargs
        (fun hstream => (hreceiver.of_isStream hstream).1) hbound
    by_cases hset : result = .selectionArray ∧ receiver.type.isStream = true
    · -- a row set: its action has recorded no row, so the binding is that of the stream
      have hunpicked : Keeps (Unpicked receiver.binding.table) (fun _ => True)
          (e.implementation.call receiver.value args) :=
        Unpicked.of_entry he hreads (TypeTag.declared_of_resolve hset.1)
      refine (Registry.apply_leaves_context (hinvoke (hpicks.and hunpicked))
        (fun s hs => ⟨⟨rfl, rfl, hs⟩, (hreceiver.of_isStream hset.2).2⟩)
        fun c hc => hc.1.state).imp ?_
      rintro picked ⟨hpicked, htype, c, hc, hbinding⟩
      rw [if_pos (htype ▸ hbound)] at hbinding
      exact hreceiver.of_picks (htype ▸ hpicked.1) (hbinding ▸ hc.1.table_eq)
        fun _ => hbinding.trans hc.2
    · -- one row: of the binding only the table matters
      refine (Registry.apply_keeps (hinvoke hpicks)).imp ?_
      rintro picked ⟨hpicked, htype, htable⟩
      rw [if_pos (htype ▸ hbound)] at htable
      exact hreceiver.of_picks (htype ▸ hpicked) htable
        fun h => absurd ⟨htype.symm.trans h, hpicked.1⟩ hset
  · -- a datum: whatever was recorded is dropped
    refine (Registry.apply_leaves_context (hinvoke hstands) (fun s hs => ⟨rfl, rfl, hs⟩)
      fun c hc => hc.state).imp ?_
    rintro ⟨v, type, binding⟩ ⟨-, htype, c, -, hbinding⟩
    obtain rfl : type = .datum := htype.trans (TypeTag.resolve_eq_datum (by simpa using hbound))
    cases hbinding
    exact .datum v

/-- Every result is sound for the tables that there were, and they are still there. The induction is
on the term; arguments that are evaluated later are covered because the row is arbitrary. -/
theorem sound_keeps (t : Term) (current : Option Value) (store : Store) :
    Keeps (Standing store) (Evaluated.Sound (store.tables.map Prod.fst)) (t.evaluate current) := by
  unfold evaluate
  induction t using Term.induction generalizing current with
  | table name =>
    rw [evaluateIn]
    -- a table that is found now was there at the start
    have hname : ∀ s, Standing store s → ∀ rows, s.store.rows? name = some rows →
        name ∈ store.tables.map Prod.fst := by
      intro s hs rows hrows
      rw [← hs.keys_eq]
      exact Store.isSome_rows?_iff.mp (by rw [hrows]; rfl)
    exact Keeps.map (rows_keeps hname) fun rows hmem => .table hmem rows
  | datum v =>
    rw [evaluateIn]
    exact Keeps.pure (.datum v)
  | row =>
    cases current with
    | none =>
      rw [evaluateIn]
      exact Keeps.throw
    | some v =>
      rw [evaluateIn]
      exact Keeps.pure (.datum v)
  | array items ih =>
    rw [evaluateIn, evaluateItems_eq]
    refine Keeps.map (Keeps.mapM (Q := fun _ => True) fun t ht => ?_) fun _ _ => .datum _
    exact Keeps.map (ih t ht current) fun _ _ => trivial
  | object fields ih =>
    rw [evaluateIn, evaluateFields_eq]
    refine Keeps.map (Keeps.mapM (Q := fun _ => True) fun pair hpair => ?_) fun _ _ => .datum _
    refine Keeps.map (P := fun _ => True) ?_ fun _ _ => trivial
    exact Keeps.map (ih pair hpair current) fun _ _ => trivial
  | call action receiver args ihr iha =>
    rw [evaluateIn]
    refine Keeps.bind (ihr current) fun e he => ?_
    refine Keeps.bind (Keeps.ofExcept fun d hd => hd) fun d hd => ?_
    obtain ⟨entry, hentry, rfl, rfl⟩ := Registry.describe_builtin hd
    rw [evaluateArguments_eq]
    refine Keeps.bind (Keeps.mapM (Q := Argument.Good (Standing store) fun _ => True)
      fun t ht => ?_) fun as has => ?_
    · exact argumentIn_keeps (fun row _ => Keeps.map (iha t ht row) fun _ _ => trivial) (by simp)
    · exact apply_sound hentry hd he has

/-- The arguments of a call leave the tables standing, even if one of them fails. -/
theorem arguments_keep (args : List Term) (current : Option Value) (store : Store) :
    Keeps (Standing store) (fun _ => True) (evaluateArguments .builtin args current) := by
  rw [evaluateArguments_eq]
  refine Keeps.imp (Keeps.mapM (Q := fun _ => True) fun t _ => ?_) fun _ _ => trivial
  refine (argumentIn_keeps (V := fun _ => True) (fun row _ => ?_) (by simp)).imp fun _ _ => trivial
  exact Keeps.map (sound_keeps t row store) fun _ _ => trivial

end Term

def Context.Attached (c : Context) : Prop :=
  (∃ live, c.rows = .ok live) ∧
    ∀ rows, ∃ next, (Act.setRows rows).runFrom c = (.ok (), next) ∧ next.rows = .ok rows

theorem Context.Attached.of_rows {c : Context} {live : List Value} (h : c.rows = .ok live) :
    c.Attached := by
  refine ⟨⟨live, h⟩, fun rows => ?_⟩
  obtain ⟨name, hname, -, hset⟩ := Context.exists_runFrom_setRows h rows
  refine ⟨_, hset, Context.rows_eq_ok.mpr ⟨name, hname, ?_⟩⟩
  rw [Store.rows?_load, if_pos rfl]

theorem Store.mem_names {store : Store} {name : String} :
    name ∈ store.names ↔ name ∈ store.tables.map Prod.fst := by
  rw [Store.names_eq, List.mem_mergeSort]

namespace Term

/-- Whatever the query, the state and the row: value, type and binding of a result fit together.
So if the result is a table, a row or a row set, then the action that it is handed to can read and
write its table, after the arguments as long as no table is made or dropped. -/
theorem evaluate_sound (t : Term) (current : Option Value) (s : State) {e : Evaluated}
    {next : State} (hrun : (t.evaluate current).runFrom s = (.ok e, next)) :
    e.Sound next.store.names ∧
      (e.type.isSelection = true → ∀ (args : List Term) (row : Option Value) (later : State),
        later.store.names = ((evaluateArguments .builtin args row).runFrom next).2.store.names →
        (⟨e.type, e.binding, later⟩ : Context).Attached) := by
  have hstart : Standing s.store s := ⟨rfl, fun _ _ => rfl⟩
  have hkeeps := sound_keeps t current s.store s hstart
  rw [Eval.runFrom] at hrun
  rw [hrun] at hkeeps
  have hsound : e.Sound next.store.names := by
    refine (hkeeps.2 e rfl).mono fun name hname => ?_
    rw [Store.mem_names, hkeeps.1.keys_eq]
    exact hname
  -- the arguments leave the tables standing, so the bound one is found after them
  refine ⟨hsound, fun htype args row later hlater => ?_⟩
  obtain ⟨name, hname, hbound⟩ := hsound.exists_table htype
  have hnames : later.store.names = next.store.names := by
    have hargs := (arguments_keep args row next.store next ⟨rfl, fun _ _ => rfl⟩).1.keys_eq
    rw [hlater, Store.names_eq, Store.names_eq]
    exact congrArg (fun keys : List String => keys.mergeSort fun a b => decide (a ≤ b)) hargs
  have hthere : (later.store.rows? name).isSome = true := by
    rw [Store.isSome_rows?_iff, ← Store.mem_names, hnames]
    exact hname
  obtain ⟨live, hlive⟩ := Option.isSome_iff_exists.mp hthere
  exact .of_rows (Context.rows_eq_ok.mpr ⟨name, hbound, hlive⟩)

/-- A key that is computed by emptying the table picks one of the rows that were read before: the
table that it is bound to can still be written. -/
theorem evaluate_sound_get :
    let row : Value := .object [("id", .bool false)]
    let key : Term := .call "eq" (.call "delete" (.table "t") []) [.datum .null]
    let s : State := ⟨⟨[("t", [row])]⟩, ⟨fun _ _ => ""⟩, 0⟩
    let out := ((call "get" (.table "t") [key]).evaluate none).runFrom s
    ∃ e, out.1 = .ok e ∧ e.type = .selection ∧ out.2.store.rows? "t" = some [] ∧
      e.Sound ["t"] ∧ (⟨e.type, e.binding, out.2⟩ : Context).Attached := by
  intro row key s out
  have hrun : out = (.ok ⟨row, .selection, ⟨some "t", some 0, some (.bool false)⟩⟩,
      { s with store := ⟨[("t", [])]⟩ }) := by cbv
  have hsound := evaluate_sound _ _ _ hrun
  rw [hrun]
  refine ⟨_, rfl, rfl, by cbv, ?_, hsound.2 rfl [] none _ rfl⟩
  have hnames : Store.names ⟨[("t", [])]⟩ = ["t"] := by cbv
  rw [← hnames]
  exact hsound.1

end Term

end TableQuery
