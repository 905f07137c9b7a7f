import Mathlib
import TableQuery.Proofs.Action.Deferral
import TableQuery.Proofs.Loops
import TableQuery.Proofs.Value.Merging

namespace TableQuery

inductive MergesRow (s : State) : List Argument → Fields → Fields → Prop
  | nil (row : Fields) : MergesRow s [] row row
  | cons {a : Argument} {rest : List Argument} {row patch result : Fields}
      (value_eq : a.valueFor s (.object row) = .ok (.object patch))
      (merges_rest : MergesRow s rest (row.merge patch) result) :
      MergesRow s (a :: rest) row result

inductive MergesInto (s : State) (args : List Argument) : Value → Value → Prop
  | object {row result : Fields} (merges : MergesRow s args row result) :
      MergesInto s args (.object row) (.object result)
  | array {rows results : List Fields} (merges : List.Forall₂ (MergesRow s args) rows results) :
      MergesInto s args (.array (rows.map .object)) (.array (results.map .object))

section

variable {s : State} {a : Argument} {rest : List Argument} {receiver result : Value}

/-- The first argument by itself, and the rest for the row that it leaves. -/
theorem MergesRow.uncons {row result : Fields} (h : MergesRow s (a :: rest) row result) :
    ∃ mid, MergesRow s [a] row mid ∧ MergesRow s rest mid result := by
  cases h with
  | cons value_eq merges_rest => exact ⟨_, .cons value_eq (.nil _), merges_rest⟩

/-- All rows may get the first argument before any of them gets the next one. -/
theorem MergesInto.uncons (h : MergesInto s (a :: rest) receiver result) :
    ∃ mid, MergesInto s [a] receiver mid ∧ MergesInto s rest mid result := by
  cases h with
  | object merges =>
    obtain ⟨mid, hfirst, hrest⟩ := merges.uncons
    exact ⟨_, .object hfirst, .object hrest⟩
  | @array rows results merges =>
    -- by induction on the rows: what the first argument leaves of each
    have hmids : ∃ mids, List.Forall₂ (MergesRow s [a]) rows mids ∧
        List.Forall₂ (MergesRow s rest) mids results := by
      induction merges with
      | nil => exact ⟨[], .nil, .nil⟩
      | cons hrow _ ih =>
        obtain ⟨mid, hfirst, hrest⟩ := hrow.uncons
        obtain ⟨mids, hfirsts, hrests⟩ := ih
        exact ⟨mid :: mids, .cons hfirst hfirsts, .cons hrest hrests⟩
    obtain ⟨mids, hfirsts, hrests⟩ := hmids
    exact ⟨_, .array hfirsts, .array hrests⟩

theorem MergesInto.eq_of_nil (h : MergesInto s [] receiver result) : receiver = result := by
  have hrow {row result : Fields} (h : MergesRow s [] row result) : row = result := by
    cases h
    rfl
  cases h with
  | object merges => rw [hrow merges]
  | @array rows results merges =>
    have hrows : List.Forall₂ Eq rows results := merges.imp fun _ _ => hrow
    rw [List.forall₂_eq_eq_eq] at hrows
    rw [hrows]

end

section

variable {c : Context} {args : List Argument} {receiver result : Value}

namespace Access

variable (hargs : ∀ a ∈ args, a.Leaves c.state)

include hargs

theorem runFrom_mergeRow {row result : Fields} (h : MergesRow c.state args row result) :
    (mergeRow args (.object row)).runFrom c = (.ok (.object result), c) := by
  unfold mergeRow
  -- the row that an argument sees changes from step to step, and with it the start of the loop
  induction h with
  | nil row => rfl
  | @cons a rest row patch result value_eq _ ih =>
    rw [List.forall_mem_cons] at hargs
    rw [List.foldlM_cons, Act.runFrom_bind, Act.runFrom_bind, Act.runFrom_evalRow hargs.1, value_eq]
    dsimp only
    rw [Act.runFrom_pure, Value.merge_object]
    exact ih hargs.2

theorem runFrom_merge (h : MergesInto c.state args receiver result) :
    (merge receiver args).runFrom c = (.ok result, c) := by
  cases h with
  | object merges => exact runFrom_mergeRow hargs merges
  | @array rows results merges =>
    have hloop : ((rows.map Value.object).mapM fun row => (do
        ofExcept (row.expect .object)
        mergeRow args row : Act Value)).runFrom c = (.ok (results.map .object), c) := by
      refine run_mapM_ok ?_
      rw [List.forall₂_map_left_iff, List.forall₂_map_right_iff]
      exact merges.imp fun row result hrow => runFrom_mergeRow hargs hrow
    rw [merge, Act.runFrom_bind, hloop]
    rfl

end Access

theorem Registry.invoke_merge (receiver : Value) (a : Argument) (rest : List Argument) :
    builtin.invoke "merge" receiver (a :: rest) = Access.merge receiver (a :: rest) := by
  have hd : builtin.describe "merge" = .ok ⟨.oneOrMore, .datum, .variadic Access.merge⟩ := rfl
  rw [invoke_oneOrMore hd]

/-- By induction on the arguments: each call goes through all rows before the next one does. -/
theorem Registry.runFrom_merges (hargs : ∀ a ∈ args, a.Leaves c.state)
    (h : MergesInto c.state args receiver result) :
    (args.foldlM (fun v a => builtin.invoke "merge" v [a]) receiver).runFrom c =
      (.ok result, c) := by
  induction args generalizing receiver with
  | nil => rw [h.eq_of_nil]; rfl
  | cons a rest ih =>
    rw [List.forall_mem_cons] at hargs
    obtain ⟨mid, hfirst, hrest⟩ := h.uncons
    rw [List.foldlM_cons, Act.runFrom_bind, invoke_merge,
      Access.runFrom_merge (by simpa using hargs.1) hfirst]
    exact ih hargs.2 hrest

end

namespace Term

def merges (receiver : Term) (args : List Term) : Term :=
  args.foldl (fun t arg => call "merge" t [arg]) receiver

variable {receiver : Term} {ts : List Term} {current : Option Value} {s next : State}
  {e : Evaluated} {args : List Argument} {result : Value}

/-- Arguments that do not write are found each by itself. -/
theorem runFrom_evaluateArguments (hts : ∀ t ∈ ts, t.mutates = false) :
    (evaluateArguments .builtin ts current).runFrom s = (.ok args, s) ↔
      List.Forall₂ (fun t a => ((argumentIn .builtin t current).runFrom s).1 = .ok a) ts args := by
  have hstate : ∀ t ∈ ts, ((argumentIn .builtin t current).runFrom s).2 = s := fun t ht =>
    (argumentIn_keeps (fun row _ => run_leaves (hts t ht) row) (by simp) s rfl).1
  rw [evaluateArguments_eq, Eval.runFrom, run_mapM hstate, Prod.mk.injEq, eq_self, and_true,
    mapM_eq_ok_iff]
  rfl

theorem evaluate_merge (hreceiver : (receiver.evaluate current).runFrom s = (.ok e, next))
    (hts : (evaluateArguments .builtin ts current).runFrom next = (.ok args, next))
    (hne : args ≠ []) (hargs : ∀ a ∈ args, a.Leaves next)
    (h : MergesInto next args e.value result) :
    ((call "merge" receiver ts).evaluate current).runFrom s = (.ok (.ofValue result), next) := by
  obtain ⟨a, rest, rfl⟩ := List.exists_cons_of_ne_nil hne
  have hd : Registry.builtin.describe "merge" =
      .ok ⟨.oneOrMore, .datum, .variadic Access.merge⟩ := rfl
  rw [runFrom_evaluate_call hreceiver hd, hts]
  dsimp only
  rw [Registry.runFrom_apply, Registry.invoke_merge, Access.runFrom_merge hargs h]
  rfl

/-- By induction on the arguments; each call is the receiver of the next one. -/
theorem runFrom_merges (hreceiver : (receiver.evaluate current).runFrom s = (.ok e, next))
    (hmutates : ∀ t ∈ ts, t.mutates = false)
    (hts : (evaluateArguments .builtin ts current).runFrom next = (.ok args, next))
    (hargs : ∀ a ∈ args, a.Leaves next) (h : MergesInto next args e.value result) :
    ((merges receiver ts).run current).runFrom s = (.ok result, next) := by
  rw [runFrom_evaluateArguments hmutates] at hts
  induction hts generalizing receiver e with
  | nil =>
    rw [merges, List.foldl_nil, runFrom_run, hreceiver, ← h.eq_of_nil]
    rfl
  | @cons t a ts rest ht hrest ih =>
    rw [List.forall_mem_cons] at hargs hmutates
    obtain ⟨mid, hfirst, hothers⟩ := h.uncons
    have hargument : (evaluateArguments .builtin [t] current).runFrom next = (.ok [a], next) :=
      (runFrom_evaluateArguments (by simpa using hmutates.1)).mpr (.cons ht .nil)
    -- the first call leaves the state as it is, so the other arguments still come to the same
    have hstep := evaluate_merge hreceiver hargument (List.cons_ne_nil a [])
      (by simpa using hargs.1) hfirst
    exact ih hstep hmutates.2 hargs.2 hothers

/-- One merge with several arguments gives what the merges with one of them each give, called one
after the other on values or written as a query. -/
theorem merge_chain {c : Context} {receiver : Value} (hne : args ≠ [])
    (hargs : ∀ a ∈ args, a.Leaves c.state) (h : MergesInto c.state args receiver result) :
    ((Registry.builtin.invoke "merge" receiver args).runFrom c = (.ok result, c) ∧
      (args.foldlM (fun v a => Registry.builtin.invoke "merge" v [a]) receiver).runFrom c =
        (.ok result, c)) ∧
    ∀ (t : Term) (ts : List Term) (current : Option Value) (s : State) (e : Evaluated),
      (t.evaluate current).runFrom s = (.ok e, c.state) → e.value = receiver →
      (evaluateArguments .builtin ts current).runFrom c.state = (.ok args, c.state) →
      (∀ t ∈ ts, t.mutates = false) →
      ((call "merge" t ts).run current).runFrom s = (.ok result, c.state) ∧
        ((merges t ts).run current).runFrom s = (.ok result, c.state) := by
  refine ⟨⟨?_, Registry.runFrom_merges hargs h⟩, ?_⟩
  · obtain ⟨a, rest, rfl⟩ := List.exists_cons_of_ne_nil hne
    rw [Registry.invoke_merge, Access.runFrom_merge hargs h]
  · rintro t ts current s e hreceiver rfl hts hmutates
    refine ⟨?_, runFrom_merges hreceiver hmutates hts hargs h⟩
    rw [runFrom_run, evaluate_merge hreceiver hts hne hargs h]
    rfl

/-- The second argument reads what the first one set, and the third one takes it away again. -/
theorem merge_chain_deferred :
    let field (name : String) : Term := .call "bracket" .row [.datum (.string name)]
    let ts : List Term := [.object [("b", field "a")],
      .object [("c", .object [("d", field "b")])], .datum (.object [("b", .null)])]
    let rows : Value := .array [.object [("a", .string "x")], .object [("a", .string "y")]]
    let result : Value := .array [
      .object [("a", .string "x"), ("b", .null), ("c", .object [("d", .string "x")])],
      .object [("a", .string "y"), ("b", .null), ("c", .object [("d", .string "y")])]]
    let s : State := ⟨.empty, ⟨fun _ _ => ""⟩, 0⟩
    ((call "merge" (.datum rows) ts).run none).runFrom s = (.ok result, s) ∧
      ((merges (.datum rows) ts).run none).runFrom s = (.ok result, s) := by
  intro field ts rows result s
  have hmutates : ∀ t ∈ ts, t.mutates = false := by decide
  let args : List Argument := [.deferred fun row => (ts[0].run (row.or none)),
    .deferred fun row => (ts[1].run (row.or none)), .datum (.object [("b", .null)])]
  have hts : (evaluateArguments .builtin ts none).runFrom s = (.ok args, s) := rfl
  have hargs : ∀ a ∈ args, a.Leaves s := by
    have hleave := arguments_leave (s := s) hmutates none s rfl
    rw [evaluateArguments_eq] at hts
    exact hleave.2 args (congrArg Prod.fst hts)
  have hrow (text : String) : MergesRow s args [("a", .string text)]
      [("a", .string text), ("b", .null), ("c", .object [("d", .string text)])] := by
    have hfirst : Fields.merge [("a", .string text)] [("b", .string text)] =
        [("a", .string text), ("b", .string text)] := by cbv
    have hsecond : Fields.merge [("a", .string text), ("b", .string text)]
        [("c", .object [("d", .string text)])] =
        [("a", .string text), ("b", .string text), ("c", .object [("d", .string text)])] := by cbv
    have hthird : Fields.merge
        [("a", .string text), ("b", .string text), ("c", .object [("d", .string text)])]
        [("b", .null)] =
        [("a", .string text), ("b", .null), ("c", .object [("d", .string text)])] := by cbv
    refine .cons (by cbv) ?_
    rw [hfirst]
    refine .cons (by cbv) ?_
    rw [hsecond]
    refine .cons rfl ?_
    rw [hthird]
    exact .nil _
  have hmerges : MergesInto s args rows result := .array (.cons (hrow "x") (.cons (hrow "y") .nil))
  exact (merge_chain (c := ⟨.datum, {}, s⟩) (List.cons_ne_nil _ _) hargs hmerges).2 (.datum rows) ts
    none s (.ofValue rows) rfl rfl hts hmutates

end Term

end TableQuery
