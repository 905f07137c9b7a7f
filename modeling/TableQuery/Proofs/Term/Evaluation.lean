import TableQuery.Proofs.Action.Reading
import TableQuery.Term.Evaluation
import TableQuery.Term.Scope

namespace TableQuery

namespace Registry

/-- What a registry describes was there before or is among the entries. -/
theorem describe_registerAll {r : Registry} {entries : List Entry} {action : String}
    {d : Descriptor} (h : (r.registerAll entries).describe action = .ok d) :
    r.describe action = .ok d ∨ ∃ e ∈ entries, e.name = action ∧
      d = ⟨e.arity, e.type, e.implementation⟩ := by
  induction entries generalizing r with
  | nil => exact .inl h
  | cons e rest ih =>
    rcases ih (r := (r.register e).1) h with hfirst | ⟨e', he', hname, hd⟩
    · rw [register] at hfirst
      split at hfirst
      · exact .inl hfirst
      · split at hfirst
        · exact .inl hfirst
        · next hfit =>
          unfold describe at hfirst ⊢
          rw [Assoc.lookup_cons] at hfirst
          unfold fit at hfit
          by_cases hname : action = e.name
          · split at hfit
            · cases hfit
              rw [if_pos hname] at hfirst
              cases hfirst
              exact .inr ⟨e, List.mem_cons_self, hname.symm, rfl⟩
            · cases hfit
          · rw [if_neg hname] at hfirst
            exact .inl hfirst
    · exact .inr ⟨e', List.mem_cons_of_mem _ he', hname, hd⟩

theorem describe_builtin {action : String} {d : Descriptor}
    (h : builtin.describe action = .ok d) : ∃ e ∈ catalogue, e.name = action ∧
      d = ⟨e.arity, e.type, e.implementation⟩ := by
  rcases describe_registerAll h with hnone | he
  · cases hnone
  · exact he

variable {registry : Registry} {I : State → Prop} {action : String}

theorem invoke_keeps {J : Context → Prop} {Q : Value → Prop} {receiver : Value}
    {args : List Argument} (h : ∀ d, registry.describe action = .ok d →
      Keeps J Q (d.implementation.call receiver args)) :
    Keeps J Q (registry.invoke action receiver args) := by
  refine Keeps.bind (Keeps.ofExcept h) fun d hd => ?_
  exact Keeps.bind (Keeps.ofExcept fun _ _ => trivial) fun _ (_ : True) => hd

/-- An action runs in a context that is made of its receiver and leaves the state there. -/
theorem runFrom_apply (registry : Registry) (action : String) (receiver : Evaluated)
    (args : List Argument) (declared : TypeTag) (s : State) :
    (registry.apply action receiver args declared).runFrom s =
      let out := (registry.invoke action receiver.value args).runFrom
        ⟨receiver.type, receiver.binding, s⟩
      let type := declared.resolve receiver.type ((args.head?).any Argument.isNumber)
      (out.1.map fun value => ⟨value, type, if type.isSelection then out.2.binding else {}⟩,
        out.2.state) := rfl

/-- What the call of an action keeps, and what it leaves behind in its context: a result that is
bound takes its binding from there. -/
theorem apply_leaves_context {J : Context → Prop} {Q : Value → Prop} {receiver : Evaluated}
    {args : List Argument} {declared : TypeTag}
    (hcall : Keeps J Q (registry.invoke action receiver.value args))
    (hstart : ∀ s, I s → J ⟨receiver.type, receiver.binding, s⟩)
    (hend : ∀ c, J c → I c.state) :
    Keeps I (fun e => Q e.value ∧
        e.type = declared.resolve receiver.type ((args.head?).any Argument.isNumber) ∧
        ∃ c, J c ∧ e.binding = if e.type.isSelection then c.binding else {})
      (registry.apply action receiver args declared) := by
  intro s hs
  have hrun := runFrom_apply registry action receiver args declared s
  have hcall := hcall ⟨receiver.type, receiver.binding, s⟩ (hstart s hs)
  rw [Eval.runFrom] at hrun
  rw [hrun]
  refine ⟨hend _ hcall.1, fun e he => ?_⟩
  dsimp only at he
  rcases hout : (registry.invoke action receiver.value args).runFrom
    ⟨receiver.type, receiver.binding, s⟩ with ⟨_ | v, c⟩
  all_goals
    rw [hout] at he
    cases he
  rw [Act.runFrom] at hout
  rw [hout] at hcall
  exact ⟨hcall.2 v rfl, rfl, c, hcall.1, rfl⟩

/-- The result of a call is bound to the table of the receiver if it is bound at all. -/
theorem apply_keeps {Q : Value → Prop} {receiver : Evaluated} {args : List Argument}
    {declared : TypeTag} (hcall : Keeps (Framed I receiver.type receiver.binding.table) Q
      (registry.invoke action receiver.value args)) :
    Keeps I (fun e => Q e.value ∧
        e.type = declared.resolve receiver.type ((args.head?).any Argument.isNumber) ∧
        e.binding.table = if e.type.isSelection then receiver.binding.table else none)
      (registry.apply action receiver args declared) := by
  refine (apply_leaves_context hcall (fun _ hs => ⟨rfl, rfl, hs⟩) fun _ hc => hc.state).imp ?_
  rintro e ⟨hvalue, htype, c, hc, hbinding⟩
  refine ⟨hvalue, htype, ?_⟩
  rw [hbinding]
  split
  · exact hc.table_eq
  · rfl

end Registry

namespace Term

/-- To prove a fact of all terms it may be used for the parts of a term. -/
@[elab_as_elim]
theorem induction {P : Term → Prop} (table : ∀ name, P (table name)) (datum : ∀ v, P (datum v))
    (row : P row) (array : ∀ items, (∀ t ∈ items, P t) → P (array items))
    (object : ∀ fields, (∀ pair ∈ fields, P pair.2) → P (object fields))
    (call : ∀ action receiver args, P receiver → (∀ t ∈ args, P t) →
      P (call action receiver args)) (t : Term) : P t :=
  match t with
  | .table name => table name
  | .datum v => datum v
  | .row => row
  | .array items => array items fun t _ => induction table datum row array object call t
  | .object fields => object fields fun pair hpair =>
      have : sizeOf pair.2 < 1 + sizeOf fields := by
        have h := List.sizeOf_lt_of_mem hpair
        have : sizeOf pair.2 < sizeOf pair := by cases pair; simp only [Prod.mk.sizeOf_spec]; omega
        omega
      induction table datum row array object call pair.2
  | .call action receiver args => call action receiver args
      (induction table datum row array object call receiver)
      fun t _ => induction table datum row array object call t
termination_by sizeOf t

theorem mem_itemTables {items : List Term} {name : String} :
    name ∈ itemTables items ↔ ∃ t ∈ items, name ∈ t.tables := by
  induction items with
  | nil => simp [itemTables]
  | cons t rest ih => simp [itemTables, ih]

theorem mem_fieldTables {fields : List (String × Term)} {name : String} :
    name ∈ fieldTables fields ↔ ∃ pair ∈ fields, name ∈ pair.2.tables := by
  induction fields with
  | nil => simp [fieldTables]
  | cons pair rest ih => obtain ⟨k, t⟩ := pair; simp [fieldTables, ih]

theorem mem_itemDatums {items : List Term} {v : Value} :
    v ∈ itemDatums items ↔ ∃ t ∈ items, v ∈ t.datums := by
  induction items with
  | nil => simp [itemDatums]
  | cons t rest ih => simp [itemDatums, ih]

theorem mem_fieldDatums {fields : List (String × Term)} {v : Value} :
    v ∈ fieldDatums fields ↔ ∃ pair ∈ fields, v ∈ pair.2.datums := by
  induction fields with
  | nil => simp [fieldDatums]
  | cons pair rest ih => obtain ⟨k, t⟩ := pair; simp [fieldDatums, ih]

theorem mem_itemActions {items : List Term} {a : String} :
    a ∈ itemActions items ↔ ∃ t ∈ items, a ∈ t.actions := by
  induction items with
  | nil => simp [itemActions]
  | cons t rest ih => simp [itemActions, ih]

theorem mem_fieldActions {fields : List (String × Term)} {a : String} :
    a ∈ fieldActions fields ↔ ∃ pair ∈ fields, a ∈ pair.2.actions := by
  induction fields with
  | nil => simp [fieldActions]
  | cons pair rest ih => obtain ⟨k, t⟩ := pair; simp [fieldActions, ih]

theorem anyMutates_eq_false {items : List Term} :
    anyMutates items = false ↔ ∀ t ∈ items, t.mutates = false := by
  induction items with
  | nil => simp [anyMutates]
  | cons t rest ih => simp [anyMutates, ih]

theorem anyFieldMutates_eq_false {fields : List (String × Term)} :
    anyFieldMutates fields = false ↔ ∀ pair ∈ fields, pair.2.mutates = false := by
  induction fields with
  | nil => simp [anyFieldMutates]
  | cons pair rest ih => obtain ⟨k, t⟩ := pair; simp [anyFieldMutates, ih]

theorem anyReferencesRow_eq_false {items : List Term} :
    anyReferencesRow items = false ↔ ∀ t ∈ items, t.referencesRow = false := by
  induction items with
  | nil => simp [anyReferencesRow]
  | cons t rest ih => simp [anyReferencesRow, ih]

theorem anyFieldReferencesRow_eq_false {fields : List (String × Term)} :
    anyFieldReferencesRow fields = false ↔ ∀ pair ∈ fields, pair.2.referencesRow = false := by
  induction fields with
  | nil => simp [anyFieldReferencesRow]
  | cons pair rest ih => obtain ⟨k, t⟩ := pair; simp [anyFieldReferencesRow, ih]

/-- A term writes exactly if it calls an action that writes. -/
theorem not_writes_of_mem_actions {t : Term} (h : t.mutates = false) :
    ∀ a ∈ t.actions, a ∉ writers := by
  induction t using Term.induction with
  | table name => simp [actions]
  | datum v => simp [actions]
  | row => simp [actions]
  | array items ih =>
    rw [mutates, anyMutates_eq_false] at h
    intro a ha
    rw [actions, mem_itemActions] at ha
    obtain ⟨t, ht, hat⟩ := ha
    exact ih t ht (h t ht) a hat
  | object fields ih =>
    rw [mutates, anyFieldMutates_eq_false] at h
    intro a ha
    rw [actions, mem_fieldActions] at ha
    obtain ⟨pair, hpair, hat⟩ := ha
    exact ih pair hpair (h pair hpair) a hat
  | call action receiver args ihr iha =>
    simp only [mutates, Bool.or_eq_false_iff, anyMutates_eq_false] at h
    intro a ha
    simp only [actions, List.cons_append, List.mem_cons, List.mem_append, mem_itemActions] at ha
    rcases ha with rfl | hr | ⟨t, ht, hat⟩
    · simpa using h.1.1
    · exact ihr h.1.2 a hr
    · exact iha t ht (h.2 t ht) a hat

variable (registry : Registry)

def argumentIn (t : Term) (current : Option Value) : Eval Argument :=
  if t.referencesRow then pure (.deferred fun inner => t.runIn registry (inner.or current))
  else return .datum (← t.runIn registry current)

theorem evaluateItems_eq (items : List Term) (current : Option Value) :
    evaluateItems registry items current = items.mapM fun t => t.runIn registry current := by
  induction items with
  | nil => rw [evaluateItems, List.mapM_nil]
  | cons t rest ih => simp [evaluateItems, List.mapM_cons, runIn, ih]

theorem evaluateFields_eq (fields : List (String × Term)) (current : Option Value) :
    evaluateFields registry fields current =
      fields.mapM fun pair => return (pair.1, ← pair.2.runIn registry current) := by
  induction fields with
  | nil => rw [evaluateFields, List.mapM_nil]
  | cons pair rest ih =>
    obtain ⟨k, t⟩ := pair
    simp [evaluateFields, List.mapM_cons, runIn, ih]

theorem evaluateArguments_eq (args : List Term) (current : Option Value) :
    evaluateArguments registry args current = args.mapM fun t => t.argumentIn registry current := by
  induction args with
  | nil => rw [evaluateArguments, List.mapM_nil]
  | cons t rest ih =>
    rw [List.mapM_cons, evaluateArguments, ih]
    by_cases h : t.referencesRow <;> simp [argumentIn, runIn, h]

/-- An argument is as good as its term is for every row. -/
theorem argumentIn_keeps {registry : Registry} {I : State → Prop} {V : Value → Prop} {t : Term}
    (h : ∀ row : Option Value, (∀ v ∈ row, V v) → Keeps I V (t.runIn registry row))
    {current : Option Value} (hcurrent : ∀ v ∈ current, V v) :
    Keeps I (Argument.Good I V) (t.argumentIn registry current) := by
  unfold argumentIn
  split
  -- a deferred argument sees the row that the action gives it, or else the row around the call
  · refine Keeps.pure fun inner hinner => h _ fun v hv => ?_
    rcases inner with _ | w
    · exact hcurrent v (by simpa using hv)
    · exact hinner v (by simpa using hv)
  · exact Keeps.map (h current hcurrent) fun v hv => hv

theorem runFrom_rows (name : String) (s : State) :
    (Eval.rows name).runFrom s = (s.store.rows name, s) := by
  change (ofExcept (s.store.rows name) : Eval (List Value)).runFrom s = _
  rw [Eval.runFrom_ofExcept]

/-- The rows of a table are those that it has in the state. -/
theorem rows_keeps {I : State → Prop} {name : String} {Q : List Value → Prop}
    (h : ∀ s, I s → ∀ rows, s.store.rows? name = some rows → Q rows) :
    Keeps I Q (Eval.rows name) := by
  intro s hs
  have hrun := runFrom_rows name s
  rw [Eval.runFrom] at hrun
  rw [hrun]
  refine ⟨hs, fun rows hrows => ?_⟩
  unfold Store.rows at hrows
  split at hrows
  · next hfound =>
    cases hrows
    exact h s hs rows hfound
  · cases hrows

/-- Evaluation keeps every invariant and every hereditary property of values that the actions of
the term keep on the tables with property `T`, provided that it holds of the values in the term, the
tables and the row. What is bound is bound to a table that the term names. -/
theorem evaluateIn_keepsOn {registry : Registry} {T : String → Prop} {I : State → Prop}
    {V : Value → Prop} (hV : Value.Hereditary V)
    (hrows : ∀ s, I s → ∀ name rows, s.store.rows? name = some rows → ∀ row ∈ rows, V row)
    (t : Term) (htables : ∀ name ∈ t.tables, T name) (hdatums : ∀ v ∈ t.datums, V v)
    (hactions : ∀ a ∈ t.actions, ∀ d, registry.describe a = .ok d → d.implementation.KeepsOn T I V)
    {current : Option Value} (hcurrent : ∀ v ∈ current, V v) :
    Keeps I (fun e => V e.value ∧ ∀ name ∈ e.binding.table, T name)
      (t.evaluateIn registry current) := by
  have hvalue {v : Value} (hv : V v) :
      V (Evaluated.ofValue v).value ∧ ∀ name ∈ (Evaluated.ofValue v).binding.table, T name :=
    ⟨hv, fun _ hname => nomatch hname⟩
  induction t using Term.induction generalizing current with
  | table name =>
    rw [evaluateIn]
    refine Keeps.map (rows_keeps fun s hs => hrows s hs name) fun rows h => ⟨hV.array h, ?_⟩
    intro bound hbound
    obtain rfl := Option.mem_some_iff.mp hbound
    exact htables name (by simp [tables])
  | datum v =>
    rw [evaluateIn]
    exact Keeps.pure (hvalue (hdatums v (by simp [datums])))
  | row =>
    cases current with
    | none =>
      rw [evaluateIn]
      exact Keeps.throw
    | some v =>
      rw [evaluateIn]
      exact Keeps.pure (hvalue (hcurrent v rfl))
  | array items ih =>
    simp only [tables, mem_itemTables, datums, mem_itemDatums, actions, mem_itemActions]
      at htables hdatums hactions
    rw [evaluateIn, evaluateItems_eq]
    refine Keeps.map (Keeps.mapM fun t ht => ?_) fun vs hvs => hvalue (hV.array hvs)
    refine Keeps.map (ih t ht (fun name hname => htables name ⟨t, ht, hname⟩)
      (fun v hv => hdatums v ⟨t, ht, hv⟩) (fun a ha => hactions a ⟨t, ht, ha⟩) hcurrent)
      fun e he => he.1
  | object fields ih =>
    simp only [tables, mem_fieldTables, datums, mem_fieldDatums, actions, mem_fieldActions]
      at htables hdatums hactions
    rw [evaluateIn, evaluateFields_eq]
    refine Keeps.map (Keeps.mapM (Q := fun pair : String × Value => V pair.2)
      fun pair hpair => ?_) fun pairs hpairs => hvalue (hV.ofList hpairs)
    refine Keeps.map (Keeps.map (Q := V) (ih pair hpair
      (fun name hname => htables name ⟨pair, hpair, hname⟩)
      (fun v hv => hdatums v ⟨pair, hpair, hv⟩) (fun a ha => hactions a ⟨pair, hpair, ha⟩)
      hcurrent) fun e he => he.1) fun v hv => hv
  | call action receiver args ihr iha =>
    simp only [tables, datums, actions, List.mem_append, List.mem_cons, List.cons_append,
      mem_itemTables, mem_itemDatums, mem_itemActions] at htables hdatums hactions
    rw [evaluateIn]
    refine Keeps.bind (ihr (fun name hname => htables name (.inl hname))
      (fun v hv => hdatums v (.inl hv))
      (fun a ha => hactions a (.inr (.inl ha))) hcurrent) fun e he => ?_
    refine Keeps.bind (Keeps.ofExcept fun _ _ => trivial) fun d (_ : True) => ?_
    rw [evaluateArguments_eq]
    refine Keeps.bind (Keeps.mapM (Q := Argument.Good I V) fun t ht => ?_) fun as has => ?_
    · -- a deferred argument keeps it for every row that the action may hand to it
      refine argumentIn_keeps (fun row hrow => ?_) hcurrent
      exact Keeps.map (iha t ht (fun name hname => htables name (.inr ⟨t, ht, hname⟩))
        (fun v hv => hdatums v (.inr ⟨t, ht, hv⟩))
        (fun a ha => hactions a (.inr (.inr ⟨t, ht, ha⟩))) hrow) fun e he => he.1
    · have hcall : Keeps (Framed I e.type e.binding.table) V
          (registry.invoke action e.value as) :=
        Registry.invoke_keeps fun d hd => hactions action (.inl rfl) d hd _ _ _ _ he.2 he.1 has
      refine (Registry.apply_keeps hcall).imp ?_
      rintro result ⟨hresult, -, htable⟩
      refine ⟨hresult, fun name hname => ?_⟩
      -- what is bound is bound to the table of the receiver
      rw [htable] at hname
      split at hname
      · exact he.2 name hname
      · cases hname

/-- Evaluation keeps what the actions of the term keep on all tables. -/
theorem evaluateIn_keeps {registry : Registry} {I : State → Prop} {V : Value → Prop}
    (hV : Value.Hereditary V)
    (hrows : ∀ s, I s → ∀ name rows, s.store.rows? name = some rows → ∀ row ∈ rows, V row)
    (t : Term) (hdatums : ∀ v ∈ t.datums, V v)
    (hactions : ∀ a ∈ t.actions, ∀ d, registry.describe a = .ok d → d.implementation.Keeps I V)
    {current : Option Value} (hcurrent : ∀ v ∈ current, V v) :
    Keeps I (fun e => V e.value) (t.evaluateIn registry current) := by
  have hon := evaluateIn_keepsOn (T := fun _ => True) hV hrows t (fun _ _ => trivial) hdatums
    (fun a ha d hd => (hactions a ha d hd).on _) hcurrent
  exact hon.imp fun e he => he.1

theorem runIn_keeps {registry : Registry} {I : State → Prop} {V : Value → Prop}
    (hV : Value.Hereditary V)
    (hrows : ∀ s, I s → ∀ name rows, s.store.rows? name = some rows → ∀ row ∈ rows, V row)
    (t : Term) (hdatums : ∀ v ∈ t.datums, V v)
    (hactions : ∀ a ∈ t.actions, ∀ d, registry.describe a = .ok d → d.implementation.Keeps I V)
    {current : Option Value} (hcurrent : ∀ v ∈ current, V v) :
    Keeps I V (t.runIn registry current) :=
  Keeps.map (evaluateIn_keeps hV hrows t hdatums hactions hcurrent) fun _ he => he

/-- The actions of a term that does not write keep every invariant. -/
theorem actions_keep {I : State → Prop} {V : Value → Prop} (hV : Value.Hereditary V) {t : Term}
    (h : t.mutates = false) : ∀ a ∈ t.actions, ∀ d, Registry.builtin.describe a = .ok d →
      d.implementation.Keeps I V := by
  intro a ha d hd
  obtain ⟨e, he, hname, rfl⟩ := Registry.describe_builtin hd
  exact keeps_of_not_writes hV he (hname ▸ not_writes_of_mem_actions h a ha)

/-- A term that does not write leaves the whole state as it is, even if it fails. -/
theorem evaluate_state {t : Term} (h : t.mutates = false) (current : Option Value) (s : State) :
    ((t.evaluate current).runFrom s).2 = s := by
  have hkeeps : Keeps (fun state => state = s) (fun _ => True) (t.evaluate current) :=
    evaluateIn_keeps Value.hereditary_true (by simp) t (by simp)
      (actions_keep Value.hereditary_true h) (by simp)
  exact (hkeeps s rfl).1

/-- A query gives the value of its result and drops the type and the binding. -/
theorem runFrom_run (t : Term) (current : Option Value) (s : State) :
    (t.run current).runFrom s =
      let out := (t.evaluate current).runFrom s
      (out.1.map Evaluated.value, out.2) := by
  change (do return (← t.evaluate current).value : Eval Value).runFrom s = _
  rw [Eval.runFrom_bind]
  rcases (t.evaluate current).runFrom s with ⟨_ | e, next⟩
  · rfl
  · rfl

theorem run_state {t : Term} (h : t.mutates = false) (current : Option Value) (s : State) :
    ((t.run current).runFrom s).2 = s := by
  rw [runFrom_run]
  exact evaluate_state h current s

theorem run_leaves {s : State} {t : Term} (h : t.mutates = false) (current : Option Value) :
    Keeps (fun state => state = s) (fun _ => True) (t.run current) :=
  runIn_keeps Value.hereditary_true (by simp) t (by simp) (actions_keep Value.hereditary_true h)
    (by simp)

/-- Arguments that do not write leave the state alone, now and when they are evaluated later. -/
theorem arguments_leave {s : State} {args : List Term} (h : ∀ t ∈ args, t.mutates = false)
    (current : Option Value) :
    Keeps (fun state => state = s) (fun as => ∀ a ∈ as, a.Leaves s)
      (args.mapM fun t : Term => t.argumentIn .builtin current) :=
  Keeps.mapM fun t ht => argumentIn_keeps (fun row _ => run_leaves (h t ht) row) (by simp)

theorem mapM_congr {α β : Type} {f g : α → Eval β} {xs : List α} (h : ∀ x ∈ xs, f x = g x) :
    xs.mapM f = xs.mapM g := by
  induction xs with
  | nil => rw [List.mapM_nil, List.mapM_nil]
  | cons x rest ih =>
    rw [List.mapM_cons, List.mapM_cons, h x List.mem_cons_self,
      ih fun y hy => h y (List.mem_cons_of_mem x hy)]

/-- The current row is not looked at by a term that does not mention it. -/
theorem evaluateIn_eq_of_not_row {t : Term} (h : t.referencesRow = false)
    (current other : Option Value) :
    t.evaluateIn registry current = t.evaluateIn registry other := by
  induction t using Term.induction generalizing current other with
  | table name => rw [evaluateIn, evaluateIn]
  | datum v => rw [evaluateIn, evaluateIn]
  | row => simp [referencesRow] at h
  | array items ih =>
    rw [referencesRow, anyReferencesRow_eq_false] at h
    rw [evaluateIn, evaluateIn, evaluateItems_eq, evaluateItems_eq]
    congr 1
    refine mapM_congr fun t ht => ?_
    rw [runIn, runIn, ih t ht (h t ht) current other]
  | object fields ih =>
    rw [referencesRow, anyFieldReferencesRow_eq_false] at h
    rw [evaluateIn, evaluateIn, evaluateFields_eq, evaluateFields_eq]
    congr 1
    refine mapM_congr fun pair hpair => ?_
    rw [runIn, runIn, ih pair hpair (h pair hpair) current other]
  | call action receiver args ihr iha =>
    simp only [referencesRow, Bool.or_eq_false_iff, anyReferencesRow_eq_false] at h
    rw [evaluateIn, evaluateIn, ihr h.1 current other, evaluateArguments_eq, evaluateArguments_eq]
    have hargs : (args.mapM fun t => t.argumentIn registry current) =
        args.mapM fun t => t.argumentIn registry other := by
      refine mapM_congr fun t ht => ?_
      rw [argumentIn, argumentIn, if_neg (by simp [h.2 t ht]), if_neg (by simp [h.2 t ht]), runIn,
        runIn, iha t ht (h.2 t ht) current other]
    rw [hargs]

/-- A call whose receiver has a value goes on with its arguments and then runs its action. -/
theorem runFrom_evaluate_call {receiver : Term} {current : Option Value} {s mid : State}
    {e : Evaluated} (hreceiver : (receiver.evaluate current).runFrom s = (.ok e, mid))
    {action : String} {d : Descriptor} (hd : Registry.builtin.describe action = .ok d)
    (args : List Term) : ((call action receiver args).evaluate current).runFrom s =
      match (evaluateArguments .builtin args current).runFrom mid with
      | (.ok as, next) => (Registry.builtin.apply action e as d.type).runFrom next
      | (.error error, next) => (.error error, next) := by
  rw [evaluate] at hreceiver ⊢
  rw [evaluateIn, Eval.runFrom_bind, hreceiver]
  dsimp only
  rw [Eval.runFrom_bind, Eval.runFrom_ofExcept, hd]
  dsimp only
  rw [Eval.runFrom_bind]
  rcases (evaluateArguments .builtin args current).runFrom mid with ⟨_ | as, next⟩ <;> rfl

/-- The receiver and the arguments of a call that is about to run its action; they have left the
state as it was. -/
structure Prepared (s : State) (receiver : Term) (args : List Term) (e : Evaluated)
    (as : List Argument) : Prop where
  receiver_eq : (receiver.evaluate none).runFrom s = (.ok e, s)
  args_eq : (args.mapM fun t : Term => t.argumentIn .builtin none).runFrom s = (.ok as, s)

theorem Prepared.evaluate_call {s : State} {receiver : Term} {args : List Term} {e : Evaluated}
    {as : List Argument} (h : Prepared s receiver args e as) {action : String} {d : Descriptor}
    (hd : Registry.builtin.describe action = .ok d) :
    ((call action receiver args).evaluate none).runFrom s =
      (Registry.builtin.apply action e as d.type).runFrom s := by
  rw [runFrom_evaluate_call h.receiver_eq hd, evaluateArguments_eq, h.args_eq]

/-- A query that calls an action runs the receiver, then the arguments, then the action. -/
theorem Prepared.runFrom_call {s : State} {receiver : Term} {args : List Term} {e : Evaluated}
    {as : List Argument} (h : Prepared s receiver args e as) {action : String} {d : Descriptor}
    (hd : Registry.builtin.describe action = .ok d) :
    ((call action receiver args).run none).runFrom s =
      let out := (Registry.builtin.invoke action e.value as).runFrom ⟨e.type, e.binding, s⟩
      (out.1, out.2.state) := by
  rw [runFrom_run, h.evaluate_call hd, Registry.runFrom_apply]
  dsimp only
  rcases (Registry.builtin.invoke action e.value as).runFrom ⟨e.type, e.binding, s⟩ with ⟨_ | v, c⟩
  · rfl
  · rfl

/-- A call that succeeds: its receiver, its arguments, then its action did. The result takes its
type from the action and the receiver, and its binding from what the action left behind. -/
theorem exists_of_evaluate_call {action : String} {receiver : Term} {args : List Term}
    {current : Option Value} {s next : State} {e : Evaluated}
    (h : ((call action receiver args).evaluate current).runFrom s = (.ok e, next)) :
    ∃ (entry : Entry) (ev : Evaluated) (as : List Argument) (mid ready : State) (c : Context),
      entry ∈ catalogue ∧ entry.name = action ∧
      (receiver.evaluate current).runFrom s = (.ok ev, mid) ∧
      (args.mapM fun t : Term => t.argumentIn .builtin current).runFrom mid = (.ok as, ready) ∧
      (entry.implementation.call ev.value as).runFrom ⟨ev.type, ev.binding, ready⟩ =
        (.ok e.value, c) ∧
      e.type = entry.type.resolve ev.type ((as.head?).any Argument.isNumber) ∧
      e.binding = if e.type.isSelection then c.binding else {} := by
  rw [evaluate, evaluateIn, evaluateArguments_eq] at h
  obtain ⟨ev, mid, hreceiver, hdescribed⟩ := Eval.bind_ok h
  obtain ⟨d, _, hd, hargs⟩ := Eval.bind_ok hdescribed
  rw [Eval.runFrom_ofExcept] at hd
  obtain ⟨hdescribe, rfl⟩ := Prod.ext_iff.mp hd
  obtain ⟨as, ready, has, happly⟩ := Eval.bind_ok hargs
  obtain ⟨entry, hentry, rfl, rfl⟩ := Registry.describe_builtin hdescribe
  rw [Registry.runFrom_apply] at happly
  rcases hout : (Registry.builtin.invoke entry.name ev.value as).runFrom
    ⟨ev.type, ev.binding, ready⟩ with ⟨_ | v, c⟩
  all_goals
    rw [hout] at happly
    cases happly
  obtain ⟨d, _, hd', hcall⟩ := Act.bind_ok hout
  obtain ⟨hsame, rfl⟩ := Act.runFrom_ofExcept_ok hd'
  cases hdescribe.symm.trans hsame
  obtain ⟨_, _, hchecked, hran⟩ := Act.bind_ok hcall
  obtain ⟨-, rfl⟩ := Act.runFrom_ofExcept_ok hchecked
  exact ⟨entry, ev, as, _, ready, c, hentry, rfl, hreceiver, has, hran, rfl, rfl⟩

end Term

end TableQuery
