import Mathlib
import TableQuery.Proofs.Action.Deferral

/-!
Substitution (`Term.run_withRow`): to evaluate a term for a row is to evaluate the term with the row
put in. An argument that mentions the row is deferred on one side and may be evaluated at once on
the other. The results have the same value, but one may be a row of a stream where the other is not:
the type of a bracket looks at its argument.
-/

namespace TableQuery

namespace SameStream

theorem not_isStream_bracket (receiver : TypeTag) (numeric : Bool) :
    (TypeTag.bracket.resolve receiver numeric).isStream = false := by
  unfold TypeTag.resolve
  dsimp only
  split
  · rfl
  · rfl

theorem isStream_sequence (receiver : TypeTag) (numeric : Bool) :
    (TypeTag.sequence.resolve receiver numeric).isStream = receiver.isStream := by
  cases receiver <;> rfl

/-- Results of one action on the same stream, or on none, are the same stream or none. Only the
first argument can make a difference, between a row and a datum. -/
theorem resolve {declared receiver receiver' : TypeTag} {table table' : Option String}
    (h : SameStream receiver receiver' table table')
    (hdeclared : declared.isStream = true → receiver.isStream = true) (numeric numeric' : Bool) :
    SameStream (declared.resolve receiver numeric) (declared.resolve receiver' numeric')
      (if (declared.resolve receiver numeric).isSelection then table else none)
      (if (declared.resolve receiver' numeric').isSelection then table' else none) := by
  cases declared with
  | datum => exact .inr ⟨rfl, rfl⟩
  | array => exact .inr ⟨rfl, rfl⟩
  | object => exact .inr ⟨rfl, rfl⟩
  | selection => exact .inr ⟨rfl, rfl⟩
  | bracket => exact .inr ⟨not_isStream_bracket _ _, not_isStream_bracket _ _⟩
  | sequence =>
    rcases h with ⟨rfl, rfl⟩ | ⟨hleft, hright⟩
    · exact .refl _ _
    · exact .inr ⟨(isStream_sequence _ _).trans hleft, (isStream_sequence _ _).trans hright⟩
  | table =>
    rcases h with ⟨rfl, rfl⟩ | ⟨hleft, -⟩
    · exact .refl _ _
    · rw [hdeclared rfl] at hleft
      cases hleft
  | selectionArray =>
    rcases h with ⟨rfl, rfl⟩ | ⟨hleft, -⟩
    · exact .refl _ _
    · rw [hdeclared rfl] at hleft
      cases hleft

end SameStream

structure Evaluated.Alike (e e' : Evaluated) : Prop where
  value_eq : e.value = e'.value
  stream : SameStream e.type e'.type e.binding.table e'.binding.table

namespace Evaluated.Alike

theorem refl (e : Evaluated) : e.Alike e := ⟨rfl, .refl _ _⟩

theorem symm {e e' : Evaluated} (h : e.Alike e') : e'.Alike e := ⟨h.value_eq.symm, h.stream.symm⟩

theorem trans {e e' e'' : Evaluated} (h : e.Alike e') (h' : e'.Alike e'') : e.Alike e'' :=
  ⟨h.value_eq.trans h'.value_eq, h.stream.trans h'.stream⟩

end Evaluated.Alike

section

variable {s : State} {e : Entry} {type : TypeTag} {table : Option String} {args : List Argument}

/-- Of the actions that do not write only `getAll` gives streams of its own; it asks for a table. -/
theorem isStream_of_declared (he : e ∈ catalogue) (hread : e.name ∉ Term.writers)
    (hargs : ∀ a ∈ args, a.Leaves s) (receiver : Value) :
    Keeps (FramedAt s type table)
      (fun _ => e.type.isStream = true → type.isStream = true)
      (e.implementation.call receiver args) := by
  have hothers : ∀ d ∈ ⟨"typeOf", .none, .datum, .nullary typeOf⟩ :: Arithmetic.entries ++
      Comparison.entries ++ Access.entries ++ Range.entries, d.type.isStream = false := by decide
  have hmutations : ∀ d ∈ Mutation.entries, d.type.isStream = false := by decide
  by_cases hstream : e.type.isStream = true
  · rcases List.mem_append.mp he with hsome | hmutation
    · rcases List.mem_append.mp hsome with hother | hselection
      · rw [hothers e hother] at hstream
        cases hstream
      · simp only [Selection.entries, List.mem_cons, List.not_mem_nil, or_false] at hselection
        rcases hselection with rfl | rfl
        · cases hstream
        · refine (Selection.getAll_keeps hargs).imp fun v hv _ => ?_
          rw [hv.1]
          rfl
    · rw [hmutations e hmutation] at hstream
      cases hstream
  · have hkeeps := keeps_of_not_writes Value.hereditary_true he hread receiver args type table
      trivial hargs
    exact hkeeps.imp fun _ _ h => absurd h hstream

/-- Values do not change the state when they are looked at. -/
theorem Argument.leaves_datums (vs : List Value) :
    ∀ a ∈ vs.map Argument.datum, a.Leaves s := by
  intro a ha
  obtain ⟨v, -, rfl⟩ := List.mem_map.mp ha
  trivial

/-- Calls that relate give results of which the values relate. -/
theorem Registry.apply_relates {registry : Registry} {action : String}
    {receiver receiver' : Evaluated} {args args' : List Argument} {declared : TypeTag}
    {R : Value → Value → Prop}
    (hcall : Relates (FramedAt s receiver.type receiver.binding.table)
      (FramedAt s receiver'.type receiver'.binding.table) R
      (registry.invoke action receiver.value args)
      (registry.invoke action receiver'.value args')) :
    RelatesAt s (fun e e' => R e.value e'.value)
      (registry.apply action receiver args declared)
      (registry.apply action receiver' args' declared) := by
  intro first second hfirst hsecond
  have hrun := runFrom_apply registry action receiver args declared first
  have hrun' := runFrom_apply registry action receiver' args' declared second
  have hboth := hcall ⟨receiver.type, receiver.binding, first⟩
    ⟨receiver'.type, receiver'.binding, second⟩ ⟨rfl, rfl, hfirst⟩ ⟨rfl, rfl, hsecond⟩
  rw [Eval.runFrom] at hrun hrun'
  rw [hrun, hrun']
  exact ⟨hboth.1.map fun _ _ hvalue => hvalue, hboth.2.1.state, hboth.2.2.state⟩

namespace Registry

variable (he : e ∈ catalogue)
  (hd : builtin.describe e.name = .ok ⟨e.arity, e.type, e.implementation⟩)
  (hread : e.name ∉ Term.writers)
  (hargs : ∀ a ∈ args, a.Leaves s)

include he hd hread hargs

/-- What a call that does not write leaves: the state, and a result of the resolved type. -/
theorem apply_leaves (receiver : Evaluated) :
    Keeps (fun state => state = s) (fun result =>
        (e.type.isStream = true → receiver.type.isStream = true) ∧
        result.type = e.type.resolve receiver.type ((args.head?).any Argument.isNumber) ∧
        result.binding.table = if result.type.isSelection then receiver.binding.table else none)
      (builtin.apply e.name receiver args e.type) := by
  have hcall : Keeps (FramedAt s receiver.type receiver.binding.table)
      (fun _ => e.type.isStream = true → receiver.type.isStream = true)
      (builtin.invoke e.name receiver.value args) := by
    apply invoke_keeps
    intro d hd'
    cases hd.symm.trans hd'
    exact isStream_of_declared he hread hargs receiver.value
  exact apply_keeps hcall

/-- The same action on receivers that are alike, with arguments that mean the same to it. -/
theorem apply_alike {receiver receiver' : Evaluated} (hreceiver : receiver.Alike receiver')
    {args' : List Argument} (hargs' : ∀ a ∈ args', a.Leaves s)
    (hcall : ∀ c : Context, c.state = s →
      (builtin.invoke e.name receiver.value args).runFrom c =
        (builtin.invoke e.name receiver.value args').runFrom c) :
    RelatesAt s Evaluated.Alike (builtin.apply e.name receiver args e.type)
      (builtin.apply e.name receiver' args' e.type) := by
  have hinvoke : Relates
      (FramedAt s receiver.type receiver.binding.table)
      (FramedAt s receiver'.type receiver'.binding.table) Eq
      (builtin.invoke e.name receiver.value args)
      (builtin.invoke e.name receiver'.value args') := by
    intro c c' hc hc'
    -- with the same arguments the action does not tell receivers apart that are alike
    have hboth : Relates (FramedAt s receiver.type receiver.binding.table)
        (FramedAt s receiver'.type receiver'.binding.table) Eq
        (builtin.invoke e.name receiver.value args')
        (builtin.invoke e.name receiver.value args') := by
      rw [invoke_builtin he hd]
      refine Relates.bind_eq (Relates.ofExcept_eq _) fun _ => ?_
      exact oblivious_of_not_writes he hread _ _ _ _ _ _ hreceiver.stream hargs'
    have hrun := hcall c hc.state
    rw [Act.runFrom, Act.runFrom] at hrun
    rw [← hreceiver.value_eq, hrun]
    exact hboth c c' hc hc'
  have hleft := apply_leaves he hd hread hargs receiver
  have hright := apply_leaves he hd hread hargs' receiver'
  refine ((apply_relates hinvoke).and_keeps hleft hright).imp ?_
  rintro result result' ⟨hvalue, ⟨hstream, htype, htable⟩, -, htype', htable'⟩
  refine ⟨hvalue, ?_⟩
  rw [htable, htable', htype, htype']
  exact hreceiver.stream.resolve hstream _ _

omit hargs in
theorem apply_datums (vs : List Value) {receiver receiver' : Evaluated}
    (hreceiver : receiver.Alike receiver') :
    RelatesAt s Evaluated.Alike (builtin.apply e.name receiver (vs.map .datum) e.type)
      (builtin.apply e.name receiver' (vs.map .datum) e.type) :=
  apply_alike he hd hread (Argument.leaves_datums vs) hreceiver (Argument.leaves_datums vs)
    fun _ _ => rfl

/-- An action that gives its arguments no rows may as well be given their values, which have to be
there. -/
theorem apply_strict (hbinder : e.name ∉ Term.rowBinders) {receiver receiver' : Evaluated}
    (hreceiver : receiver.Alike receiver') :
    RelatesAt s Evaluated.Alike (builtin.apply e.name receiver args e.type) (do
        let vs ← args.mapM Argument.resolve
        builtin.apply e.name receiver' (vs.map .datum) e.type) := by
  have hdatums (vs : List Value) : ∀ a ∈ vs.map Argument.datum, a.Leaves s :=
    Argument.leaves_datums vs
  have hresolve : Keeps (fun state => state = s) (fun _ => True) (args.mapM Argument.resolve) :=
    (Keeps.mapM fun a ha => Keeps.argument (hargs a ha)).imp fun _ _ => trivial
  refine Relates.of_keeps (apply_leaves he hd hread hargs receiver)
    (Keeps.bind (Q := fun _ => True) hresolve fun vs _ =>
      (apply_leaves he hd hread (hdatums vs) receiver').imp fun _ _ => trivial) ?_
  intro first second hfirst hsecond
  rw [show first = s from hfirst, show second = s from hsecond, run_bind]
  -- the values of the arguments are there or not, whichever call asks for them
  obtain ⟨outcome, houtcome⟩ :
      ∃ outcome, StateT.run (ExceptT.run (args.mapM Argument.resolve)) s = (outcome, s) :=
    ⟨_, Prod.ext rfl (hresolve s rfl).1⟩
  have hstrict := invoke_strict he hd hread hbinder houtcome receiver.value
  rw [houtcome]
  cases outcome with
  | ok vs => exact (apply_alike he hd hread hargs hreceiver (hdatums vs) hstrict s s rfl rfl).1
  | error e' =>
    obtain ⟨e'', herror⟩ := hstrict ⟨receiver.type, receiver.binding, s⟩ rfl
    dsimp only at herror
    have hrun := runFrom_apply builtin e.name receiver args e.type s
    rw [Eval.runFrom] at hrun
    rw [hrun]
    dsimp only
    rw [herror]
    exact .error

end Registry

end

namespace Term

variable {s : State} {args : List Term}

theorem itemsWithRow_eq (x : Value) (items : List Term) :
    itemsWithRow x items = items.map (withRow x) := by
  induction items with
  | nil => rfl
  | cons t rest ih => rw [itemsWithRow, ih, List.map_cons]

theorem fieldsWithRow_eq (x : Value) (fields : List (String × Term)) :
    fieldsWithRow x fields = fields.map fun pair => (pair.1, pair.2.withRow x) := by
  induction fields with
  | nil => rfl
  | cons pair rest ih => rw [fieldsWithRow, ih, List.map_cons]

/-- A value that is put in calls no actions. -/
theorem mutates_withRow (x : Value) {t : Term} (h : t.mutates = false) :
    (t.withRow x).mutates = false := by
  induction t using Term.induction with
  | table name => rfl
  | datum v => rfl
  | row => rfl
  | array items ih =>
    rw [mutates, anyMutates_eq_false] at h
    rw [withRow, mutates, anyMutates_eq_false, itemsWithRow_eq]
    intro t ht
    obtain ⟨u, hu, rfl⟩ := List.mem_map.mp ht
    exact ih u hu (h u hu)
  | object fields ih =>
    rw [mutates, anyFieldMutates_eq_false] at h
    rw [withRow, mutates, anyFieldMutates_eq_false, fieldsWithRow_eq]
    intro pair hpair
    obtain ⟨p, hp, rfl⟩ := List.mem_map.mp hpair
    exact ih p hp (h p hp)
  | call action receiver args ihr iha =>
    simp only [mutates, Bool.or_eq_false_iff, anyMutates_eq_false] at h
    simp only [withRow, mutates, Bool.or_eq_false_iff, anyMutates_eq_false]
    refine ⟨⟨h.1.1, ihr h.1.2⟩, ?_⟩
    split
    · exact h.2
    · intro t ht
      rw [itemsWithRow_eq] at ht
      obtain ⟨u, hu, rfl⟩ := List.mem_map.mp ht
      exact iha u hu (h.2 u hu)

/-- Deferred or not, the arguments of a call have the values of their terms. -/
theorem resolve_arguments (h : ∀ t ∈ args, t.mutates = false) (current : Option Value) :
    RelatesAt s Eq
      (do
        let as ← args.mapM fun t : Term => t.argumentIn .builtin current
        as.mapM Argument.resolve)
      (args.mapM fun t : Term => t.run current) := by
  induction args with
  | nil =>
    simp only [List.mapM_nil, pure_bind]
    exact Relates.pure rfl
  | cons t rest ih =>
    have hfirst : t.mutates = false := h t List.mem_cons_self
    have hothers (u : Term) (hu : u ∈ rest) : u.mutates = false := h u (List.mem_cons_of_mem _ hu)
    have hrest (v : Value) : RelatesAt s Eq
        (do
          let as ← rest.mapM fun t : Term => t.argumentIn .builtin current
          let vs ← as.mapM Argument.resolve
          return v :: vs)
        (do return v :: (← rest.mapM fun t : Term => t.run current)) := by
      rw [← bind_assoc]
      exact Relates.bind_eq (ih hothers) fun vs => Relates.pure rfl
    by_cases hrow : t.referencesRow = true
    · -- the arguments behind it are evaluated first
      have hdeferred : t.argumentIn .builtin current =
          pure (.deferred fun inner => t.run (inner.or current)) := if_pos hrow
      simp only [List.mapM_cons, hdeferred, bind_assoc, pure_bind]
      have hswap := Relates.swap (arguments_leave (s := s) hothers current)
        (run_leaves hfirst current) (f := fun as v => do
          let vs ← as.mapM Argument.resolve
          return v :: vs) fun as v has _ => Keeps.map
            ((Keeps.mapM fun a ha => Keeps.argument (has a ha)).imp fun _ _ => trivial)
            fun _ _ => trivial
      refine hswap.trans ?_ fun _ _ _ heq heq' => heq.trans heq'
      exact Relates.bind_eq (Relates.refl (run_leaves hfirst current)) hrest
    · have heager : t.argumentIn .builtin current =
          (do return .datum (← t.run current)) := if_neg hrow
      simp only [List.mapM_cons, heager, bind_assoc, pure_bind]
      exact Relates.bind_eq (Relates.refl (run_leaves hfirst current)) hrest

/-- The row around a call cannot be seen behind the rows that its action gives to an argument. -/
theorem arguments_sameForRows (h : ∀ t ∈ args, t.mutates = false)
    (current current' : Option Value) :
    RelatesAt s (List.Forall₂ Argument.SameForRows)
      (args.mapM fun t : Term => t.argumentIn .builtin current)
      (args.mapM fun t : Term => t.argumentIn .builtin current') := by
  apply Relates.mapM
  intro t ht
  unfold argumentIn
  by_cases hrow : t.referencesRow = true
  · rw [if_pos hrow, if_pos hrow]
    exact Relates.pure (.deferred fun _ => rfl)
  · rw [if_neg hrow, if_neg hrow]
    have hsame : t.runIn .builtin current' = t.runIn .builtin current := by
      rw [runIn, runIn, evaluateIn_eq_of_not_row .builtin (by simpa using hrow) current' current]
    rw [hsame]
    exact Relates.bind_eq (Relates.refl (run_leaves (h t ht) current)) fun v =>
      Relates.pure (.datum v)

theorem run_relates {t t' : Term} {current current' : Option Value}
    (h : RelatesAt s Evaluated.Alike (t.evaluate current) (t'.evaluate current')) :
    RelatesAt s Eq (t.run current) (t'.run current') :=
  h.map fun _ _ halike => halike.value_eq

section

variable {e : Entry} (he : e ∈ catalogue)
  (hd : Registry.builtin.describe e.name = .ok ⟨e.arity, e.type, e.implementation⟩)
  (hread : e.name ∉ writers) (hargs : ∀ t ∈ args, t.mutates = false)

include he hd hread hargs

/-- A call of an action that gives its arguments no rows may evaluate them at once. -/
theorem call_eager (hbinder : e.name ∉ rowBinders) {receiver receiver' : Evaluated}
    (hreceiver : receiver.Alike receiver') (current : Option Value) :
    RelatesAt s Evaluated.Alike
      (do
        let as ← args.mapM fun t : Term => t.argumentIn .builtin current
        Registry.builtin.apply e.name receiver as e.type)
      (do
        let vs ← args.mapM fun t : Term => t.run current
        Registry.builtin.apply e.name receiver' (vs.map .datum) e.type) := by
  have hleave := arguments_leave (s := s) hargs current
  have hresolved : RelatesAt s Evaluated.Alike
      (do
        let as ← args.mapM fun t : Term => t.argumentIn .builtin current
        Registry.builtin.apply e.name receiver as e.type)
      (do
        let as ← args.mapM fun t : Term => t.argumentIn .builtin current
        let vs ← as.mapM Argument.resolve
        Registry.builtin.apply e.name receiver' (vs.map .datum) e.type) := by
    refine Relates.bind ((Relates.refl hleave).and_keeps hleave hleave) fun as as' has => ?_
    obtain ⟨rfl, hgood, -⟩ := has
    exact Registry.apply_strict he hd hread hgood hbinder hreceiver
  have heager : RelatesAt s Evaluated.Alike
      (do
        let as ← args.mapM fun t : Term => t.argumentIn .builtin current
        let vs ← as.mapM Argument.resolve
        Registry.builtin.apply e.name receiver' (vs.map .datum) e.type)
      (do
        let vs ← args.mapM fun t : Term => t.run current
        Registry.builtin.apply e.name receiver' (vs.map .datum) e.type) := by
    rw [← bind_assoc]
    refine Relates.bind_eq (resolve_arguments hargs current) fun vs => ?_
    exact Registry.apply_datums he hd hread vs (.refl receiver')
  exact hresolved.trans heager fun _ _ _ => .trans

/-- A call of an action that gives rows to its arguments does not see the row around it in them. -/
theorem call_binder (hbinder : e.name ∈ rowBinders) {receiver receiver' : Evaluated}
    (hreceiver : receiver.Alike receiver') (current current' : Option Value) :
    RelatesAt s Evaluated.Alike
      (do
        let as ← args.mapM fun t : Term => t.argumentIn .builtin current
        Registry.builtin.apply e.name receiver as e.type)
      (do
        let as ← args.mapM fun t : Term => t.argumentIn .builtin current'
        Registry.builtin.apply e.name receiver' as e.type) := by
  have hleft := arguments_leave (s := s) hargs current
  have hright := arguments_leave (s := s) hargs current'
  have hsame := arguments_sameForRows (s := s) hargs current current'
  refine Relates.bind (hsame.and_keeps hleft hright) fun as as' has => ?_
  obtain ⟨hforRows, hgood, hgood'⟩ := has
  refine Registry.apply_alike he hd hread hgood hreceiver hgood' fun c _ => ?_
  rw [Registry.invoke_congr he hd hbinder hforRows]

end

/-- The results for a row and with the row put in are alike. The induction is on the term; a call
splits by whether its action gives rows to its arguments. -/
theorem evaluate_alike {t : Term} (h : t.mutates = false) (x : Value) (s : State) :
    RelatesAt s Evaluated.Alike (t.evaluate (some x)) ((t.withRow x).evaluate none) := by
  induction t using Term.induction with
  | table name =>
    rw [withRow, evaluate, evaluate, evaluateIn, evaluateIn]
    have hrows : Keeps (fun state => state = s) (fun _ => True) (Eval.rows name) :=
      rows_keeps fun _ _ _ _ => trivial
    exact Relates.bind_eq (Relates.refl hrows) fun rows => Relates.pure (.refl _)
  | datum v =>
    rw [withRow, evaluate, evaluate, evaluateIn, evaluateIn]
    exact Relates.pure (.refl _)
  | row =>
    rw [withRow, evaluate, evaluate, evaluateIn, evaluateIn]
    exact Relates.pure (.refl _)
  | array items ih =>
    rw [mutates, anyMutates_eq_false] at h
    rw [withRow, evaluate, evaluate, evaluateIn, evaluateIn, evaluateItems_eq, evaluateItems_eq,
      itemsWithRow_eq, List.mapM_map]
    have hitems := Relates.mapM_eq fun t ht => run_relates (ih t ht (h t ht))
    exact Relates.bind_eq hitems fun vs => Relates.pure (.refl _)
  | object fields ih =>
    rw [mutates, anyFieldMutates_eq_false] at h
    rw [withRow, evaluate, evaluate, evaluateIn, evaluateIn, evaluateFields_eq, evaluateFields_eq,
      fieldsWithRow_eq, List.mapM_map]
    refine Relates.bind_eq (Relates.mapM_eq fun pair hpair => ?_) fun vs => Relates.pure (.refl _)
    exact Relates.bind_eq (run_relates (ih pair hpair (h pair hpair))) fun v => Relates.pure rfl
  | call action receiver args ihr iha =>
    simp only [mutates, Bool.or_eq_false_iff, anyMutates_eq_false] at h
    rw [withRow, evaluate, evaluate, evaluateIn, evaluateIn]
    refine Relates.bind (ihr h.1.2) fun ev ev' hev => ?_
    refine Relates.bind (Relates.ofExcept (.self _)) fun d d' hd => ?_
    obtain ⟨rfl, hd⟩ := hd
    obtain ⟨e, he, rfl, rfl⟩ := Registry.describe_builtin hd
    have hread : e.name ∉ writers := by simpa using h.1.1
    rw [evaluateArguments_eq, evaluateArguments_eq]
    by_cases hbinder : e.name ∈ rowBinders
    · -- nothing was put into the arguments
      rw [if_pos (by simpa using hbinder)]
      exact call_binder he hd hread h.2 hbinder hev (some x) none
    · rw [if_neg (by simpa using hbinder), itemsWithRow_eq]
      have hput : ∀ t ∈ args.map (withRow x), t.mutates = false := by
        intro t ht
        obtain ⟨u, hu, rfl⟩ := List.mem_map.mp ht
        exact mutates_withRow x (h.2 u hu)
      -- both calls may evaluate their arguments at once, and there the values are the same
      have hleft := call_eager (s := s) he hd hread h.2 hbinder hev (some x)
      have hright := call_eager (s := s) he hd hread hput hbinder (.refl ev') none
      have hmiddle : RelatesAt s Evaluated.Alike
          (do
            let vs ← args.mapM fun t : Term => t.run (some x)
            Registry.builtin.apply e.name ev' (vs.map .datum) e.type)
          (do
            let vs ← (args.map (withRow x)).mapM fun t : Term => t.run none
            Registry.builtin.apply e.name ev' (vs.map .datum) e.type) := by
        rw [List.mapM_map]
        refine Relates.bind_eq (Relates.mapM_eq fun t ht => ?_) fun vs => ?_
        · exact run_relates (iha t ht (h.2 t ht))
        · exact Registry.apply_datums he hd hread vs (.refl ev')
      have hall := hmiddle.trans (T := Evaluated.Alike) (hright.symm fun _ _ => .symm)
        fun _ _ _ => .trans
      exact hleft.trans hall fun _ _ _ => .trans

/-- A term that does not write has a value for a row exactly if it has one without a row once the
row is put in for every mention of it outside of the arguments that get rows of their own; then the
values are the same. -/
theorem run_withRow {t : Term} (h : t.mutates = false) (x : Value) (s : State) (v : Value) :
    ((t.run (some x)).runFrom s).1 = .ok v ↔ (((t.withRow x).run none).runFrom s).1 = .ok v :=
  (run_relates (evaluate_alike h x s) s s rfl rfl).1.ok_iff v

/-- The row is mentioned in a receiver, in an argument that gets a row of its own, where it means
another row, and in one that is only deferred. -/
theorem run_withRow_filter :
    let first : Value := .object [("a", .bool true)]
    let x : Value := .object [("k", .string "a"), ("rows", .array [first, .object []])]
    let rows : Term := .call "bracket" .row [.datum (.string "rows")]
    let kept : Term := .call "filter" rows [.call "hasFields" .row [.datum (.string "a")]]
    let t : Term := .call "getField" kept [.call "bracket" .row [.datum (.string "k")]]
    let s : State := ⟨.empty, ⟨fun _ _ => ""⟩, 0⟩
    let v : Value := .array [.bool true]
    t.mutates = false ∧ ((t.run (some x)).runFrom s).1 = .ok v ∧
      (((t.withRow x).run none).runFrom s).1 = .ok v := by
  intro first x rows kept t s v
  have hreads : t.mutates = false := rfl
  have hvalue : ((t.run (some x)).runFrom s).1 = .ok v := by cbv
  exact ⟨hreads, hvalue, (run_withRow hreads x s v).mp hvalue⟩

end Term

end TableQuery
