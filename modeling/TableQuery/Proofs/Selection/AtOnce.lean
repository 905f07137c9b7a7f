import TableQuery.Proofs.Action.Accounting
import TableQuery.Proofs.Action.InTurn
import TableQuery.Proofs.PrimaryKey.Lookup
import TableQuery.Proofs.Selection.Exactness
import TableQuery.Proofs.Term.Locality

namespace TableQuery

def State.withRows (s : State) (name : String) (rows : List Value) : State :=
  { s with store := s.store.load name rows }

theorem State.rows?_withRows (s : State) (name other : String) (rows : List Value) :
    (s.withRows name rows).store.rows? other =
      if other = name then some rows else s.store.rows? other :=
  Store.rows?_load s.store name other rows

theorem Mutation.Tally.eq_of_toValue {t t' : Tally}
    (h : t.report.toValue = t'.report.toValue) : t = t' := by
  have herrors := congrArg (Value.counter "errors") h
  have hreplaced := congrArg (Value.counter "replaced") h
  have hunchanged := congrArg (Value.counter "unchanged") h
  rw [Report.counter_errors, Report.counter_errors] at herrors
  rw [Report.counter_replaced, Report.counter_replaced] at hreplaced
  rw [Report.counter_unchanged, Report.counter_unchanged] at hunchanged
  obtain ⟨replaced, unchanged, errors⟩ := t
  obtain ⟨replaced', unchanged', errors'⟩ := t'
  cases herrors
  cases hreplaced
  cases hunchanged
  rfl

namespace Term

open Mutation

variable {e : Term} {s : State} {name : String} {live rows : List Value} {new : Value → Value}

def valueIn (e : Term) (s : State) (name : String) (rows : List Value) (row : Value) :
    Except Error Value :=
  ((e.run (some row)).runFrom (s.withRows name rows)).1

/-- The value is told by the tables that the term names: any state with these gives it. -/
theorem valueIn_eq {s' : State} (hsource : s'.source = s.source) (hdrawn : s'.drawn = s.drawn)
    (hrows : ∀ other ∈ e.tables, s'.store.rows? other =
      if other = name then some rows else s.store.rows? other) (row : Value) :
    e.valueIn s name rows row = ((e.run (some row)).runFrom s').1 := by
  refine (run_congr (s := s.withRows name rows) hsource hdrawn (fun other hother => ?_) _).symm
  rw [State.rows?_withRows, hrows other hother]

/-- With the rows that the table has, the value is that in the state itself. -/
theorem valueIn_of_rows (h : s.store.rows? name = some rows) (row : Value) :
    e.valueIn s name rows row = ((e.run (some row)).runFrom s).1 := by
  refine valueIn_eq rfl rfl (fun other _ => ?_) row
  split
  · next heq => rw [heq, h]
  · rfl

/-- A term that does not name the table has the same value whatever rows the table has. -/
theorem valueIn_of_not_mem (h : name ∉ e.tables) (row : Value) :
    e.valueIn s name rows row = ((e.run (some row)).runFrom s).1 := by
  refine valueIn_eq rfl rfl (fun other hother => ?_) row
  have hne : other ≠ name := fun heq => h (heq ▸ hother)
  rw [if_neg hne]

theorem distinct_of_valueIn {row w : Value}
    (htables : ∀ other rows, s.store.rows? other = some rows → ∀ r ∈ rows, r.Distinct)
    (hreads : e.mutates = false) (hdatums : ∀ v ∈ e.datums, v.Distinct)
    (hrows : ∀ r ∈ rows, r.Distinct) (hrow : row.Distinct)
    (h : e.valueIn s name rows row = .ok w) : w.Distinct := by
  apply distinct_of_run (s := s.withRows name rows) ?_ hreads hdatums ?_ h
  · intro other rows' hother
    rw [State.rows?_withRows] at hother
    split at hother
    · cases hother
      exact hrows
    · exact htables other rows' hother
  · intro v hv
    cases hv
    exact hrow

/-- An argument that mentions the row is evaluated for each row in the state of its turn. -/
theorem tells_deferred (hreads : e.mutates = false) (s : State) (name : String) :
    Tells (.deferred fun row => e.run row) s name (e.valueIn s name) := by
  intro rows row s' hsource hdrawn hrows
  have hvalue : e.valueIn s name rows row = ((e.run (some row)).runFrom s').1 :=
    valueIn_eq hsource hdrawn (fun other _ => hrows other) row
  exact Prod.ext hvalue.symm (run_state hreads (some row) s')

theorem tells_datum (v : Value) (s : State) (name : String) :
    Tells (.datum v) s name fun _ _ => .ok v :=
  fun _ _ _ _ _ _ => rfl

theorem prepared_table_of_argument {arg : Argument} (hlive : s.store.rows? name = some live)
    (hargument : (e.argumentIn .builtin none).runFrom s = (.ok arg, s)) :
    Prepared s (table name) [e] (.ofTable name live) [arg] :=
  prepared_one (prepared_table hlive .null).receiver_eq hargument

/-- The call of `replace` on a table replaces its rows in turn. -/
theorem runFrom_replace_table {admits : Value → Prop} {arg : Argument}
    {f : List Value → Value → Except Error Value} (hlive : s.store.rows? name = some live)
    (hkeyed : KeyedBy admits live)
    (hargument : (e.argumentIn .builtin none).runFrom s = (.ok arg, s))
    (hnull : arg.isNull = false) (hvalue : Tells arg s name f) :
    ∃ next, ((call "replace" (table name) [e]).run none).runFrom s =
        ((replaceInTurn f [] live ⟨0, 0, 0⟩).1.map fun tally => tally.report.toValue, next) ∧
      ∀ other, next.store.rows? other =
        if other = name then some (replaceInTurn f [] live ⟨0, 0, 0⟩).2
        else s.store.rows? other := by
  have hcall := (prepared_table_of_argument hlive hargument).runFrom_call
    (rfl : Registry.builtin.describe "replace" = _)
  have hinvoke : Registry.builtin.invoke "replace" (Evaluated.ofTable name live).value [arg] =
      replace (.array live) arg .undefined := rfl
  obtain ⟨next, hreplace, hnext⟩ := runFrom_replace_rows
    (c := ⟨(Evaluated.ofTable name live).type, (Evaluated.ofTable name live).binding, s⟩)
    hvalue hkeyed (.refl rfl hlive) rfl hnull .undefined
  rw [hinvoke, hreplace] at hcall
  exact ⟨next.state, hcall, hnext.rows?_eq⟩

/-- A replacement of no rows fails nowhere and leaves no rows. -/
theorem runFrom_replace_nil {c : Context} (h : Rewritten c name [] c) (htype : c.type = .table)
    (arg options : Argument) : ∃ outcome next,
      (replace (.array []) arg options).runFrom c = (outcome, next) ∧ Rewritten c name [] next := by
  have hexpect : c.expectSelection = .ok () := if_pos (by rw [htype]; rfl)
  rw [replace, Act.runFrom_bind, Act.runFrom_ask, hexpect]
  dsimp only
  cases arg.isNull with
  | true =>
    obtain ⟨next, hdelete, hnext⟩ := runFrom_deleteRows_table [] h htype
    rw [if_pos rfl, Act.runFrom_bind, hdelete]
    exact ⟨_, next, rfl, hnext⟩
  | false => exact ⟨_, c, rfl, h⟩

/-- A table without rows stays without rows, whatever becomes of the argument. -/
theorem run_replace_empty (hlive : s.store.rows? name = some []) (hreads : e.mutates = false) :
    ∃ outcome next, ((call "replace" (table name) [e]).run none).runFrom s = (outcome, next) ∧
      ∀ other, next.store.rows? other = if other = name then some [] else s.store.rows? other := by
  have hstart : Rewritten ⟨.table, { table := some name }, s⟩ name [] ⟨.table,
      { table := some name }, s⟩ := .refl rfl hlive
  have hreceiver := (prepared_table hlive .null).receiver_eq
  have hkeeps : Keeps (fun state => state = s) (fun a => a.Leaves s)
      (e.argumentIn .builtin none) :=
    argumentIn_keeps (fun row _ => run_leaves hreads row) (by simp)
  have hstate : ((e.argumentIn .builtin none).runFrom s).2 = s := (hkeeps s rfl).1
  rcases hargument : (e.argumentIn .builtin none).runFrom s with ⟨x, next⟩
  obtain rfl : next = s := by rw [hargument] at hstate; exact hstate
  cases x with
  | error fault =>
    have hd : Registry.builtin.describe "replace" = .ok ⟨.oneOrTwo, .datum, .binary replace⟩ := rfl
    refine ⟨.error fault, next, ?_, hstart.rows?_eq⟩
    change (do return (← (call "replace" _ _).evaluate none).value : Eval Value).runFrom _ = _
    rw [evaluate] at hreceiver ⊢
    rw [Eval.runFrom_bind, evaluateIn, evaluateArguments_eq, Eval.runFrom_bind, hreceiver]
    dsimp only
    rw [Eval.runFrom_bind, Eval.runFrom_ofExcept, hd]
    dsimp only
    rw [List.mapM_cons, Eval.runFrom_bind, Eval.runFrom_bind, hargument]
  | ok arg =>
    have hcall := (prepared_table_of_argument hlive hargument).runFrom_call
      (rfl : Registry.builtin.describe "replace" = _)
    have hinvoke : Registry.builtin.invoke "replace" (Evaluated.ofTable name []).value [arg] =
        replace (.array []) arg .undefined := rfl
    obtain ⟨outcome, last, hreplace, hlast⟩ := runFrom_replace_nil hstart rfl arg .undefined
    rw [hinvoke] at hcall
    refine ⟨outcome, last.state, hcall.trans ?_, hlast.rows?_eq⟩
    exact congrArg (fun out => (out.1, out.2.state)) hreplace

/-- What a replacement of the rows of a table leaves if all values are taken before the first row is
written. Where the table has no row, the call may fail on a value that does not mention the row. -/
structure ReplacedAtOnce (new : Value → Value) (live now : List Value)
    (outcome : Except Error Value) : Prop where
  rows : List.Forall₂ (fun row after => after.equals (new row) = true) live now
  outcome_eq : live ≠ [] → outcome = .ok (Tally.settle new live ⟨0, 0, 0⟩).report.toValue

theorem replacedAtOnce_iff (hlive : live ≠ []) {outcome : Except Error Tally} :
    ReplacedAtOnce new live rows (outcome.map fun tally => tally.report.toValue) ↔
      Settled new live rows ⟨0, 0, 0⟩ outcome := by
  constructor
  · rintro ⟨hrows, houtcome⟩
    refine ⟨?_, hrows⟩
    have hok := houtcome hlive
    cases outcome with
    | error fault => cases hok
    | ok tally => rw [Tally.eq_of_toValue (Except.ok.inj hok)]
  · rintro ⟨houtcome, hrows⟩
    exact ⟨hrows, fun _ => by rw [houtcome]; rfl⟩

def Gives (e : Term) (s : State) (new : Value → Value) (live : List Value) : Prop :=
  ∀ row ∈ live, ((e.run (some row)).runFrom s).1 = .ok (new row) ∧ SameKey row (new row)

theorem Gives.distinct {admits : Value → Prop} (hnew : Gives e s new live)
    (htables : ∀ other rows, s.store.rows? other = some rows → ∀ r ∈ rows, r.Distinct)
    (hlive : s.store.rows? name = some live) (hkeyed : KeyedBy admits live)
    (hreads : e.mutates = false) (hdatums : ∀ v ∈ e.datums, v.Distinct) :
    ∀ row ∈ live, (new row).Distinct := by
  intro row hrow
  have hvalue := (valueIn_of_rows hlive row).trans (hnew row hrow).1
  exact distinct_of_valueIn htables hreads hdatums (htables name live hlive)
    (hkeyed.distinct row hrow) hvalue

/-- A value that is the same for all rows has the key of one row at most. -/
theorem eq_nil_of_sameKey {admits : Value → Prop} {row v : Value} {rest : List Value}
    (hkeyed : KeyedBy admits (row :: rest)) (h : ∀ r ∈ row :: rest, SameKey r v)
    (hv : v.Distinct) : rest = [] := by
  apply List.eq_nil_iff_forall_not_mem.mpr
  intro other hother
  obtain ⟨x, z, hx, hz, hxz⟩ := h row List.mem_cons_self
  obtain ⟨y, z', hy, hz', hyz⟩ := h other (List.mem_cons_of_mem _ hother)
  obtain rfl := Option.some.inj (hz.symm.trans hz')
  have hrow := hkeyed.isRow other (List.mem_cons_of_mem _ hother)
  have hback : z.equals y = true :=
    Value.equals_symm (hrow.distinct_id hy) (Value.hereditary_distinct.field? hv hz) hyz
  have hapart := (List.pairwise_cons.mp hkeyed.apart).1 other hother
  rw [sameRow_of_id hx hy, Value.equals_trans hxz hback] at hapart
  cases hapart

/-- The argument that a row expression is to `replace`. Either it mentions the row and is evaluated
at the turn of each row, or it is one value, and then there is no second row. -/
theorem exists_tells {admits : Value → Prop} (hlive : s.store.rows? name = some live)
    (hkeyed : KeyedBy admits live) (hne : live ≠ [])
    (htables : ∀ other rows, s.store.rows? other = some rows → ∀ r ∈ rows, r.Distinct)
    (hreads : e.mutates = false) (hdatums : ∀ v ∈ e.datums, v.Distinct)
    (hnew : Gives e s new live) : ∃ arg f,
      (e.argumentIn .builtin none).runFrom s = (.ok arg, s) ∧ arg.isNull = false ∧
      Tells arg s name f ∧
      (∀ rows row w, (∀ r ∈ rows, r.Distinct) → row ∈ rows → f rows row = .ok w → w.Distinct) ∧
      ∀ before row after, live = before ++ row :: after → ∀ done : List Value,
        f (done.take before.length ++ row :: after) row =
          e.valueIn s name (done.take before.length ++ row :: after) row := by
  have hdistinct := hnew.distinct htables hlive hkeyed hreads hdatums
  by_cases hmention : e.referencesRow = true
  · have hargument : (e.argumentIn .builtin none).runFrom s =
        (.ok (.deferred fun row => e.run (row.or none)), s) := by
      rw [argumentIn, if_pos hmention]
      rfl
    refine ⟨.deferred fun row => e.run (row.or none), e.valueIn s name, hargument, rfl,
      tells_deferred hreads s name, ?_, fun _ _ _ _ _ => rfl⟩
    intro rows row w hrows hrow hw
    exact distinct_of_valueIn htables hreads hdatums hrows (hrows row hrow) hw
  · have hmention' : e.referencesRow = false := by simpa using hmention
    have hconst (row : Value) : e.run (some row) = e.run none := by
      rw [run, run, runIn, runIn, evaluateIn_eq_of_not_row .builtin hmention' (some row) none]
    cases live with
    | nil => exact absurd rfl hne
    | cons first rest =>
      have hfirst := hnew first List.mem_cons_self
      rw [hconst] at hfirst
      have hsame : ∀ row ∈ first :: rest, SameKey row (new first) := by
        intro row hrow
        have hvalue := (hnew row hrow).1
        rw [hconst, hfirst.1, Except.ok.injEq] at hvalue
        rw [hvalue]
        exact (hnew row hrow).2
      -- one value cannot have the keys of two rows
      obtain rfl : rest = [] := eq_nil_of_sameKey hkeyed hsame (hdistinct first List.mem_cons_self)
      have hargument := argumentIn_of_value hreads hmention' hfirst.1
      refine ⟨.datum (new first), fun _ _ => .ok (new first), hargument, ?_,
        tells_datum (new first) s name, ?_, ?_⟩
      · obtain ⟨_, _, -, hid, -⟩ := hfirst.2
        cases hnull : new first <;> rw [hnull] at hid <;> first | rfl | cases hid
      · intro _ _ w _ _ hw
        cases hw
        exact hdistinct first List.mem_cons_self
      · -- the only row has its turn in the table as it is
        intro before row after hsplit done
        obtain ⟨rfl, rfl, rfl⟩ : before = [] ∧ row = first ∧ after = [] := by
          cases before <;> simp_all
        rw [List.length_nil, List.take_zero, List.nil_append, valueIn_of_rows hlive, hconst,
          hfirst.1]

/-- Replacement of the rows of a table by a row expression that does not write and gives, in the
state as it is, a row with the same key for each row. What is left is what the values in that state
would leave at once exactly if each row, when it is its turn, has its value in that state up to
equality, while the rows before it are replaced. This is so if the expression does not name the
table. -/
theorem replace_atOnce_iff
    (htables : ∀ other rows, s.store.rows? other = some rows → ∀ r ∈ rows, r.Distinct)
    (hlive : s.store.rows? name = some live) (hkeyed : KeyedBy (fun _ => True) live)
    (hreads : e.mutates = false) (hdatums : ∀ v ∈ e.datums, v.Distinct)
    (hnew : Gives e s new live) : ∃ now outcome next,
      ((call "replace" (table name) [e]).run none).runFrom s = (outcome, next) ∧
      (∀ other, next.store.rows? other =
        if other = name then some now else s.store.rows? other) ∧
      (ReplacedAtOnce new live now outcome ↔ ∀ before row after, live = before ++ row :: after →
        ∃ v, e.valueIn s name (now.take before.length ++ row :: after) row = .ok v ∧
          v.equals (new row) = true) ∧
      (name ∉ e.tables → ReplacedAtOnce new live now outcome) := by
  by_cases hne : live = []
  · subst hne
    obtain ⟨outcome, next, hrun, hrows⟩ := run_replace_empty hlive hreads
    have hnone : ReplacedAtOnce new [] [] outcome := ⟨.nil, fun h => absurd rfl h⟩
    refine ⟨[], outcome, next, hrun, hrows, ?_, fun _ => hnone⟩
    exact ⟨fun _ before row after h => by simp at h, fun _ => hnone⟩
  · have hdistinct := hnew.distinct htables hlive hkeyed hreads hdatums
    obtain ⟨arg, f, hargument, hnull, hvalue, hvalues, hturn⟩ :=
      exists_tells hlive hkeyed hne htables hreads hdatums hnew
    obtain ⟨next, hrun, hrows⟩ := runFrom_replace_table hlive hkeyed hargument hnull hvalue
    let now := (replaceInTurn f [] live ⟨0, 0, 0⟩).2
    have hnewRows : ∀ row ∈ live, (new row).Distinct ∧ SameKey row (new row) :=
      fun row hrow => ⟨hdistinct row hrow, (hnew row hrow).2⟩
    -- first for the values that the rows have at their turns, then for those of the expression
    have hforeseen : Settled new live now ⟨0, 0, 0⟩ (replaceInTurn f [] live ⟨0, 0, 0⟩).1 ↔
        Foreseen f new [] live now :=
      replaceInTurn_iff hkeyed.distinct hnewRows hvalues (by simp) rfl
    have hiff : ReplacedAtOnce new live now ((replaceInTurn f [] live ⟨0, 0, 0⟩).1.map
        fun tally => tally.report.toValue) ↔ ∀ before row after, live = before ++ row :: after →
          ∃ v, e.valueIn s name (now.take before.length ++ row :: after) row = .ok v ∧
            v.equals (new row) = true := by
      rw [replacedAtOnce_iff hne, hforeseen]
      refine forall_congr' fun before => forall_congr' fun row => forall_congr' fun after => ?_
      refine imp_congr_right fun hsplit => ?_
      rw [← hturn before row after hsplit now]
      rfl
    refine ⟨now, _, next, hrun, hrows, hiff, fun hname => hiff.mpr ?_⟩
    intro before row after hsplit
    have hrow : row ∈ live := by rw [hsplit]; simp
    refine ⟨new row, ?_, Value.equals_refl (hdistinct row hrow)⟩
    rw [valueIn_of_not_mem hname]
    exact (hnew row hrow).1

/-- A field of each row is renamed; the expression reads no table. -/
theorem replace_atOnce_iff_rename :
    let first : Value := .object [("id", .bool true), ("v", .string "x")]
    let second : Value := .object [("id", .bool false), ("v", .string "y")]
    let s : State := ⟨⟨[("t", [first, second])]⟩, ⟨fun _ _ => ""⟩, 0⟩
    let e : Term := .object [("id", .call "bracket" .row [.datum (.string "id")]),
      ("w", .call "bracket" .row [.datum (.string "v")])]
    let new (row : Value) : Value := .object [("id", (row.field? "id").getD .null),
      ("w", (row.field? "v").getD .null)]
    ∃ now next, ((call "replace" (table "t") [e]).run none).runFrom s =
        (.ok (Tally.report ⟨2, 0, 0⟩).toValue, next) ∧
      next.store.rows? "t" = some now ∧
      List.Forall₂ (fun row after => after.equals (new row) = true) [first, second] now := by
  intro first second s e new
  have htables (other : String) (rows : List Value) (hrows : s.store.rows? other = some rows) :
      ∀ r ∈ rows, r.Distinct := by
    have hname : (if other = "t" then some [first, second] else none) = some rows :=
      (Assoc.lookup_cons ..).symm.trans hrows
    split at hname <;> cases hname
    decide
  have hlive : s.store.rows? "t" = some [first, second] := rfl
  have hkeyed : KeyedBy (fun _ => True) [first, second] := by
    refine ⟨?_, by decide⟩
    simp only [List.forall_mem_cons]
    exact ⟨⟨by decide, _, rfl, trivial⟩, ⟨by decide, _, rfl, trivial⟩, by simp⟩
  have hnew : Gives e s new [first, second] := by
    simp only [Gives, List.forall_mem_cons]
    exact ⟨⟨by cbv, _, _, rfl, rfl, rfl⟩, ⟨by cbv, _, _, rfl, rfl, rfl⟩, by simp⟩
  obtain ⟨now, outcome, next, hrun, hrows, -, hatOnce⟩ :=
    replace_atOnce_iff htables hlive hkeyed (rfl : e.mutates = false) (by decide) hnew
  have hdone : ReplacedAtOnce new [first, second] now outcome :=
    hatOnce (by simp [e, tables, fieldTables, itemTables])
  have houtcome : outcome = .ok (Tally.report ⟨2, 0, 0⟩).toValue := hdone.outcome_eq (by simp)
  exact ⟨now, next, houtcome ▸ hrun, hrows "t", hdone.rows⟩

/-- Each row is to get all rows of the table. The second row gets the first one as it is by then. -/
theorem not_replacedAtOnce :
    let first : Value := .object [("id", .bool true)]
    let second : Value := .object [("id", .bool false)]
    let s : State := ⟨⟨[("t", [first, second])]⟩, ⟨fun _ _ => ""⟩, 0⟩
    let e : Term := .object [("id", .call "bracket" .row [.datum (.string "id")]),
      ("all", .table "t")]
    let new (row : Value) : Value := .object [("id", (row.field? "id").getD .null),
      ("all", .array [first, second])]
    let out := ((call "replace" (table "t") [e]).run none).runFrom s
    let now : List Value := [new first,
      .object [("id", .bool false), ("all", .array [new first, second])]]
    KeyedBy (fun _ => True) [first, second] ∧ e.mutates = false ∧ Gives e s new [first, second] ∧
      out.1 = .ok (Tally.report ⟨2, 0, 0⟩).toValue ∧ out.2.store.rows? "t" = some now ∧
      ¬ List.Forall₂ (fun row after => after.equals (new row) = true) [first, second] now := by
  intro first second s e new out now
  have hlive : s.store.rows? "t" = some [first, second] := rfl
  have hkeyed : KeyedBy (fun _ => True) [first, second] := by
    refine ⟨?_, by decide⟩
    simp only [List.forall_mem_cons]
    exact ⟨⟨by decide, _, rfl, trivial⟩, ⟨by decide, _, rfl, trivial⟩, by simp⟩
  have hargument : (e.argumentIn .builtin none).runFrom s =
      (.ok (.deferred fun row => e.run (row.or none)), s) := rfl
  obtain ⟨next, hrun, hrows⟩ :=
    runFrom_replace_table hlive hkeyed hargument rfl (tells_deferred rfl s "t")
  have hturn : replaceInTurn (e.valueIn s "t") [] [first, second] ⟨0, 0, 0⟩ =
      (.ok ⟨2, 0, 0⟩, now) := by cbv
  rw [hturn] at hrun hrows
  refine ⟨hkeyed, rfl, ?_, congrArg Prod.fst hrun, ?_, ?_⟩
  · simp only [Gives, List.forall_mem_cons]
    exact ⟨⟨by cbv, _, _, rfl, rfl, rfl⟩, ⟨by cbv, _, _, rfl, rfl, rfl⟩, by simp⟩
  · exact (congrArg (fun out => out.2.store.rows? "t") hrun).trans (hrows "t")
  · intro h
    obtain ⟨-, hrest⟩ := List.forall₂_cons.mp h
    have hsecond := (List.forall₂_cons.mp hrest).1
    revert hsecond
    decide

end Term

end TableQuery
