import TableQuery.Proofs.Action.Streams
import TableQuery.Proofs.Term.Evaluation
import TableQuery.Term.Substitution

namespace TableQuery

namespace Act

variable {α β : Type}

/-- Steps on the state of a context can be taken one after the other. -/
theorem ofEval_bind (x : Eval α) (f : α → Eval β) :
    ofEval (x >>= f) = ofEval x >>= fun a => ofEval (f a) := by
  funext c
  change (ofEval (x >>= f)).runFrom c = (ofEval x >>= fun a => ofEval (f a)).runFrom c
  rw [runFrom_bind, runFrom_ofEval, runFrom_ofEval, Eval.runFrom_bind]
  rcases x.runFrom c.state with ⟨_ | a, next⟩
  · rfl
  · rfl

theorem resolveAll_eq (args : List Argument) :
    resolveAll args = ofEval (args.mapM Argument.resolve) := by
  unfold resolveAll
  induction args with
  | nil => rfl
  | cons a rest ih =>
    rw [List.mapM_cons, List.mapM_cons, ih, ofEval_bind]
    refine bind_congr fun v => ?_
    rw [ofEval_bind]
    rfl

/-- To evaluate arguments in a context is to evaluate them in its state. -/
theorem runFrom_resolveAll {args : List Argument} {s : State}
    {outcome : Except Error (List Value)}
    (h : (args.mapM Argument.resolve).runFrom s = (outcome, s)) {c : Context} (hc : c.state = s) :
    (resolveAll args).runFrom c = (outcome, c) := by
  rw [resolveAll_eq, runFrom_ofEval, hc, h, ← hc]

theorem resolveAll_datums (vs : List Value) : resolveAll (vs.map .datum) = pure vs := by
  unfold resolveAll
  induction vs with
  | nil => rfl
  | cons v rest ih =>
    rw [List.map_cons, List.mapM_cons, ih]
    rfl

end Act

def StrictFor {α : Type} (s : State) (args : List Argument) (outcome : Except Error (List Value))
    (x : List Argument → Act α) : Prop :=
  ∀ c : Context, c.state = s → match outcome with
    | .ok vs => (x args).runFrom c = (x (vs.map .datum)).runFrom c
    | .error _ => ∃ e, ((x args).runFrom c).1 = .error e

namespace StrictFor

variable {α β : Type} {s : State} {args : List Argument} {outcome : Except Error (List Value)}
  {x : List Argument → Act α}

theorem throw (e : Error) : StrictFor s args outcome fun _ => (throw e : Act α) := by
  intro c _
  cases outcome with
  | ok vs => rfl
  | error e' => exact ⟨e, rfl⟩

/-- A step before that does not depend on the arguments. -/
theorem bind {g : Act β} {x : β → List Argument → Act α}
    (hg : ∀ c, (g.runFrom c).2.state = c.state) (hx : ∀ b, StrictFor s args outcome (x b)) :
    StrictFor s args outcome fun as => g >>= fun b => x b as := by
  intro c hc
  have hstate := hg c
  have hnext (b : β) (next : Context) (hrun : g.runFrom c = (.ok b, next)) : next.state = s := by
    rw [hrun] at hstate
    exact hstate.trans hc
  cases outcome with
  | ok vs =>
    dsimp only
    rw [Act.runFrom_bind, Act.runFrom_bind]
    rcases hrun : g.runFrom c with ⟨e | b, next⟩
    · rfl
    · exact hx b next (hnext b next hrun)
  | error e =>
    dsimp only
    rw [Act.runFrom_bind]
    rcases hrun : g.runFrom c with ⟨e' | b, next⟩
    · exact ⟨e', rfl⟩
    · exact hx b next (hnext b next hrun)

theorem ofExcept_bind {check : Except Error β} {x : β → List Argument → Act α}
    (hx : ∀ b, StrictFor s args outcome (x b)) :
    StrictFor s args outcome fun as => (ofExcept check : Act β) >>= fun b => x b as :=
  bind (fun c => by rw [Act.runFrom_ofExcept]) hx

theorem ask_bind {f : Context → Except Error β} {x : β → List Argument → Act α}
    (hx : ∀ b, StrictFor s args outcome (x b)) :
    StrictFor s args outcome fun as => Act.ask f >>= fun b => x b as :=
  bind (fun c => by rw [Act.runFrom_ask]) hx

variable (h : (args.mapM Argument.resolve).runFrom s = (outcome, s))

include h

theorem resolveAll {f : List Value → Act α} :
    StrictFor s args outcome fun as => Act.resolveAll as >>= f := by
  intro c hc
  have hrun := Act.runFrom_resolveAll h hc
  cases outcome with
  | ok vs =>
    dsimp only
    rw [Act.runFrom_bind, hrun, Act.resolveAll_datums, pure_bind]
  | error e =>
    refine ⟨e, ?_⟩
    rw [Act.runFrom_bind, hrun]

/-- As many values as arguments. -/
theorem length_eq {vs : List Value} (hok : outcome = .ok vs) : vs.length = args.length :=
  (Keeps.length_mapM Argument.resolve args s trivial).2 vs ((congrArg Prod.fst h).trans hok)

/-- No arguments at all. -/
theorem nullary (hnone : args.length = 0) : StrictFor s args outcome x := by
  obtain rfl := List.length_eq_zero_iff.mp hnone
  cases h
  intro c _
  rfl

/-- A single argument. -/
theorem resolve {f : Value → Act α} (hone : args.length = 1) :
    StrictFor s args outcome fun as => Act.resolve (as[0]?.getD .undefined) >>= f := by
  obtain ⟨a, rfl⟩ := List.length_eq_one_iff.mp hone
  have hmap : [a].mapM Argument.resolve = a.resolve >>= fun v => pure [v] := by
    rw [List.mapM_cons, List.mapM_nil]
    rfl
  rw [hmap, Eval.runFrom_bind] at h
  intro c hc
  have hresolve : (Act.resolve a).runFrom c =
      ((a.resolve.runFrom s).1, { c with state := (a.resolve.runFrom s).2 }) := by
    rw [Act.resolve, Act.runFrom_ofEval, hc]
  rcases hrun : a.resolve.runFrom s with ⟨e | v, next⟩
  all_goals
    rw [hrun] at h hresolve
    cases h
  · refine ⟨e, ?_⟩
    change ((Act.resolve a >>= f).runFrom c).1 = _
    rw [Act.runFrom_bind, hresolve]
  · change (Act.resolve a >>= f).runFrom c = (f v).runFrom c
    rw [Act.runFrom_bind, hresolve, ← hc]

end StrictFor

theorem Arity.accepts_one_iff {n : Nat} : Arity.one.accepts n = true ↔ n = 1 := by
  change (decide (1 ≤ n) && decide (n ≤ 1)) = true ↔ n = 1
  rw [Bool.and_eq_true, decide_eq_true_eq, decide_eq_true_eq]
  omega

theorem Arity.accepts_none_iff {n : Nat} : Arity.none.accepts n = true ↔ n = 0 := by
  simp [accepts, none]

section

variable {s : State} {args : List Argument} {outcome : Except Error (List Value)}
  (h : (args.mapM Argument.resolve).runFrom s = (outcome, s))

include h

theorem Arithmetic.entries_strict {e : Entry} (he : e ∈ entries) (receiver : Value) :
    StrictFor s args outcome fun as => e.implementation.call receiver as := by
  simp only [entries, List.mem_cons, List.not_mem_nil, or_false] at he
  rcases he with rfl | rfl | rfl | rfl
  · cases receiver <;> first | exact .resolveAll h | exact .throw _
  all_goals exact .resolveAll h

theorem Comparison.entries_strict {e : Entry} (he : e ∈ entries) (receiver : Value) :
    StrictFor s args outcome fun as => e.implementation.call receiver as := by
  simp only [entries, List.mem_cons, List.not_mem_nil, or_false] at he
  rcases he with rfl | rfl | rfl | rfl | rfl | rfl
  all_goals exact .resolveAll h

theorem Access.entries_strict {e : Entry} (he : e ∈ entries)
    (hbinder : e.name ∉ Term.rowBinders) (harity : e.arity.accepts args.length = true)
    (receiver : Value) :
    StrictFor s args outcome fun as => e.implementation.call receiver as := by
  simp only [entries, List.mem_cons, List.not_mem_nil, or_false] at he
  rcases he with rfl | rfl | rfl | rfl | rfl | rfl | rfl
  · exact .resolve h (Arity.accepts_one_iff.mp harity)
  · exact .resolve h (Arity.accepts_one_iff.mp harity)
  · exact .resolve h (Arity.accepts_one_iff.mp harity)
  · exact .resolveAll h
  · exact absurd (by decide) hbinder
  · exact .resolveAll h
  · exact .resolveAll h

theorem Range.entries_strict {e : Entry} (he : e ∈ entries)
    (hbinder : e.name ∉ Term.rowBinders) (harity : e.arity.accepts args.length = true)
    (receiver : Value) :
    StrictFor s args outcome fun as => e.implementation.call receiver as := by
  simp only [entries, List.mem_cons, List.not_mem_nil, or_false] at he
  rcases he with rfl | rfl | rfl | rfl | rfl | rfl
  · exact .ofExcept_bind fun _ => .resolveAll h
  · exact .resolve h (Arity.accepts_one_iff.mp harity)
  · exact .nullary h (Arity.accepts_none_iff.mp harity)
  -- `offsetsOf` and `filter` give rows to their argument
  · exact absurd (by decide) hbinder
  · exact absurd (by decide) hbinder
  · exact .resolve h (Arity.accepts_one_iff.mp harity)

/-- A key that is not given is refused before it is evaluated. -/
theorem Selection.get_strict (hone : args.length = 1) (table : Value) :
    StrictFor s args outcome fun as => get table (as[0]?.getD .undefined) := by
  let found (key : Value) : Act Value := do
    ofExcept (checkKey true key)
    let rows ← ofExcept (Access.items table)
    Act.setRowIndex (keyPosition key rows)
    Act.setRowId (some key)
    return ((keyPosition key rows).bind fun i => rows[i]?).getD .null
  have hgiven : StrictFor s args outcome fun as =>
      Act.ask (Context.expectType .table) >>= fun _ =>
        Act.resolve (as[0]?.getD .undefined) >>= found :=
    .ask_bind fun _ => .resolve h hone
  -- `get` looks whether there is a key before it evaluates it, so the case of none is apart
  intro c hc
  have hgiven := hgiven c hc
  have hlength {vs : List Value} (hok : outcome = .ok vs) : vs.length = 1 :=
    (StrictFor.length_eq h hok).trans hone
  obtain ⟨a, rfl⟩ := List.length_eq_one_iff.mp hone
  cases outcome with
  | ok vs =>
    obtain ⟨v, rfl⟩ := List.length_eq_one_iff.mp (hlength rfl)
    cases a with
    | undefined => cases h
    | datum w => exact hgiven
    | deferred run => exact hgiven
  | error e =>
    cases a with
    | undefined =>
      dsimp only
      change ∃ e, ((Act.ask (Context.expectType .table) >>= fun _ => _).runFrom c).1 = .error e
      rw [Act.runFrom_bind, Act.runFrom_ask]
      cases Context.expectType .table c <;> exact ⟨_, rfl⟩
    | datum w => exact hgiven
    | deferred run => exact hgiven

theorem Selection.entries_strict {e : Entry} (he : e ∈ entries)
    (harity : e.arity.accepts args.length = true) (receiver : Value) :
    StrictFor s args outcome fun as => e.implementation.call receiver as := by
  simp only [entries, List.mem_cons, List.not_mem_nil, or_false] at he
  rcases he with rfl | rfl
  · exact get_strict h (Arity.accepts_one_iff.mp harity) receiver
  · refine .ask_bind fun _ => ?_
    refine .bind (fun _ => rfl) fun _ => ?_
    exact .bind (fun _ => rfl) fun _ => .resolveAll h

/-- An action that neither writes nor gives its arguments rows of their own. -/
theorem strict_of_not_binder {e : Entry} (he : e ∈ catalogue) (hread : e.name ∉ Term.writers)
    (hbinder : e.name ∉ Term.rowBinders) (harity : e.arity.accepts args.length = true)
    (receiver : Value) :
    StrictFor s args outcome fun as => e.implementation.call receiver as := by
  simp only [catalogue, List.cons_append, List.mem_cons, List.mem_append] at he
  rcases he with rfl | ((((he | he) | he) | he) | he) | he
  · exact .nullary h (Arity.accepts_none_iff.mp harity)
  · exact Arithmetic.entries_strict h he receiver
  · exact Comparison.entries_strict h he receiver
  · exact Access.entries_strict h he hbinder harity receiver
  · exact Range.entries_strict h he hbinder harity receiver
  · exact Selection.entries_strict h he harity receiver
  · have hwrites : ∀ d ∈ Mutation.entries, d.name ∈ Term.writers := by decide
    exact absurd (hwrites e he) hread

end

inductive Argument.SameForRows : Argument → Argument → Prop
  | datum (v : Value) : SameForRows (.datum v) (.datum v)
  | deferred {run run' : Option Value → Eval Value} (h : ∀ row, run (some row) = run' (some row)) :
    SameForRows (.deferred run) (.deferred run')

section

variable {arg arg' : Argument} {args args' : List Argument}

theorem Argument.SameForRows.evalRow_eq (h : arg.SameForRows arg') (row : Value) :
    Act.evalRow row arg = Act.evalRow row arg' := by
  cases h with
  | datum v => rfl
  | deferred h => exact congrArg Act.ofEval (h row)

theorem Range.flags_congr {run run' : Option Value → Eval Value}
    (h : ∀ row, run (some row) = run' (some row)) (rows : List Value) :
    flags run rows = flags run' rows := by
  unfold flags
  simp only [h]

theorem Range.filter_congr (receiver : Value) (h : arg.SameForRows arg') :
    filter receiver arg = filter receiver arg' := by
  cases h with
  | datum v => rfl
  | deferred h =>
    unfold filter
    simp only [rowsWhere_bind, flags_congr h]

theorem Range.offsetsOf_congr (receiver : Value) (h : arg.SameForRows arg') :
    offsetsOf receiver arg = offsetsOf receiver arg' := by
  cases h with
  | datum v => rfl
  | deferred h =>
    unfold offsetsOf
    simp only [offsetsWhere_bind, flags_congr h]

theorem Access.mergeRow_congr (h : List.Forall₂ Argument.SameForRows args args') (row : Value) :
    mergeRow args row = mergeRow args' row := by
  unfold mergeRow
  induction h generalizing row with
  | nil => rfl
  | cons hfirst _ ih =>
    rw [List.foldlM_cons, List.foldlM_cons, hfirst.evalRow_eq]
    exact bind_congr ih

theorem Access.merge_congr (receiver : Value)
    (h : List.Forall₂ Argument.SameForRows args args') :
    merge receiver args = merge receiver args' := by
  unfold merge
  simp only [mergeRow_congr h]

/-- An action that gives rows to its arguments looks at them for these rows only. -/
theorem call_congr {e : Entry} (he : e ∈ catalogue) (hbinder : e.name ∈ Term.rowBinders)
    (receiver : Value) (h : List.Forall₂ Argument.SameForRows args args') :
    e.implementation.call receiver args = e.implementation.call receiver args' := by
  have hothers : ∀ d ∈ Arithmetic.entries ++ Comparison.entries ++ Selection.entries ++
      Mutation.entries, d.name ∉ Term.rowBinders := by decide
  -- the row binders are `merge` of the one family and `offsetsOf` and `filter` of the other
  simp only [catalogue, List.cons_append, List.mem_cons, List.mem_append] at he
  rcases he with rfl | ((((he | he) | he) | he) | he) | he
  · exact absurd hbinder (by decide)
  · exact absurd hbinder (hothers e (by simp [he]))
  · exact absurd hbinder (hothers e (by simp [he]))
  · simp only [Access.entries, List.mem_cons, List.not_mem_nil, or_false] at he
    rcases he with rfl | rfl | rfl | rfl | rfl | rfl | rfl
    on_goal 5 => exact Access.merge_congr receiver h
    all_goals exact absurd hbinder (by decide)
  · simp only [Range.entries, List.mem_cons, List.not_mem_nil, or_false] at he
    rcases he with rfl | rfl | rfl | rfl | rfl | rfl
    on_goal 4 =>
      cases h with
      | nil => rfl
      | cons hfirst _ => exact Range.offsetsOf_congr receiver hfirst
    on_goal 4 =>
      cases h with
      | nil => rfl
      | cons hfirst _ => exact Range.filter_congr receiver hfirst
    all_goals exact absurd hbinder (by decide)
  · exact absurd hbinder (hothers e (by simp [he]))
  · exact absurd hbinder (hothers e (by simp [he]))

end

namespace Registry

theorem validate_builtin {e : Entry} (he : e ∈ catalogue) (count : Nat) :
    builtin.arities.validate e.name count = e.arity.check e.name count := by
  have harities : ∀ d ∈ catalogue, builtin.arities.lookup d.name = some d.arity := by decide
  rw [ArityTable.validate, harities e he]

section

variable {e : Entry} (he : e ∈ catalogue)
  (hd : builtin.describe e.name = .ok ⟨e.arity, e.type, e.implementation⟩)

include he hd

theorem invoke_builtin (receiver : Value) (args : List Argument) :
    builtin.invoke e.name receiver args =
      (ofExcept (e.arity.check e.name args.length) : Act Unit) >>= fun _ =>
        e.implementation.call receiver args := by
  rw [invoke, hd, validate_builtin he]
  rfl

/-- Arguments of the wrong number are refused whether they are evaluated or not. -/
theorem invoke_strict (hread : e.name ∉ Term.writers) (hbinder : e.name ∉ Term.rowBinders)
    {s : State} {args : List Argument} {outcome : Except Error (List Value)}
    (h : (args.mapM Argument.resolve).runFrom s = (outcome, s)) (receiver : Value) :
    StrictFor s args outcome fun as => builtin.invoke e.name receiver as := by
  simp only [invoke_builtin he hd]
  intro c hc
  -- there are as many values as arguments, so both calls pass the check or neither does
  by_cases harity : e.arity.accepts args.length = true
  · have hcall := strict_of_not_binder h he hread hbinder harity receiver c hc
    cases outcome with
    | ok vs =>
      dsimp only
      rw [List.length_map, StrictFor.length_eq h rfl, Arity.check, if_pos harity]
      exact hcall
    | error e' =>
      dsimp only
      rw [Arity.check, if_pos harity]
      exact hcall
  · cases outcome with
    | ok vs =>
      dsimp only
      rw [List.length_map, StrictFor.length_eq h rfl, Arity.check, if_neg harity]
      rfl
    | error e' =>
      dsimp only
      rw [Arity.check, if_neg harity]
      exact ⟨_, rfl⟩

theorem invoke_congr (hbinder : e.name ∈ Term.rowBinders) {args args' : List Argument}
    (h : List.Forall₂ Argument.SameForRows args args') (receiver : Value) :
    builtin.invoke e.name receiver args = builtin.invoke e.name receiver args' := by
  rw [invoke_builtin he hd, invoke_builtin he hd, h.length_eq, call_congr he hbinder receiver h]

end

/-- A call of an action that takes any number of arguments but none. -/
theorem invoke_oneOrMore {action : String} {type : TypeTag}
    {run : Value → List Argument → Act Value}
    (hd : builtin.describe action = .ok ⟨.oneOrMore, type, .variadic run⟩) (receiver : Value)
    (args : List Argument) : builtin.invoke action receiver args = match args with
      | [] => throw (.argumentCount action .atLeast 1 0)
      | arg :: rest => run receiver (arg :: rest) := by
  obtain ⟨e, he, rfl, hentry⟩ := describe_builtin hd
  obtain ⟨harity, -, himplementation⟩ := Descriptor.mk.inj hentry
  rw [invoke_builtin he (hd.trans (congrArg Except.ok hentry)), ← harity, ← himplementation]
  cases args with
  | nil => rfl
  | cons arg rest =>
    have haccepts : Arity.oneOrMore.accepts (arg :: rest).length = true := by
      simp [Arity.accepts, Arity.oneOrMore]
    rw [Arity.check, if_pos haccepts]
    rfl

end Registry

end TableQuery
