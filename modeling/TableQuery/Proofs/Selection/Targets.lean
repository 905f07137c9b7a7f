import TableQuery.Proofs.PrimaryKey.Lookup
import TableQuery.Proofs.Selection.Selected

namespace TableQuery

namespace Term

variable {s : State} {t : String} {target : Term}

inductive Target (t : String) : Term → Prop
  | table : Target t (.table t)
  | get {key : Value} (hkey : key.Distinct) : Target t (.call "get" (.table t) [.datum key])
  | getAll (keys : List Value) : Target t (.call "getAll" (.table t) (keys.map .datum))

def Chooses (target : Term) (t : String) (type : TypeTag) (test : Value → Bool) : Prop :=
  ∀ (s : State) (live : List Value), s.store.rows? t = some live →
    KeyedBy (fun _ => True) live → ∃ e, (target.evaluate none).runFrom s = (.ok e, s) ∧
      e.type = type ∧ Selects s e t live ∧ selectedRows e.value = live.filter test

def ByKey (test : Value → Bool) : Prop :=
  ∀ a b : Value, a.Distinct → b.Distinct → SameKey a b → test a = test b

theorem byKey_hasId (key : Value) : ByKey key.hasId := by
  rintro a b ha hb ⟨x, y, hx, hy, hequal⟩
  have hback := Value.equals_symm (Value.hereditary_distinct.field? ha hx)
    (Value.hereditary_distinct.field? hb hy) hequal
  rw [Value.hasId, Value.hasId, hx, hy, Option.any_some, Option.any_some,
    Value.strictEquals_eq_equals, Value.strictEquals_eq_equals]
  apply Bool.eq_iff_iff.mpr
  constructor
  · exact Value.equals_trans hback
  · exact Value.equals_trans hequal

/-- A receiver that fails fails its call. -/
theorem evaluate_call_error {receiver : Term} {error : Error} {next : State}
    (h : (receiver.evaluate none).runFrom s = (.error error, next)) (action : String)
    (args : List Term) :
    ((call action receiver args).evaluate none).runFrom s = (.error error, next) := by
  rw [evaluate] at h ⊢
  rw [evaluateIn, Eval.runFrom_bind, h]

theorem run_call_error {receiver : Term} {error : Error} {next : State}
    (h : (receiver.evaluate none).runFrom s = (.error error, next)) (action : String)
    (args : List Term) :
    ((call action receiver args).run none).runFrom s = (.error error, next) := by
  rw [runFrom_run, evaluate_call_error h]
  rfl

/-- A missing table is missing for every target. -/
theorem Target.missing (h : Target t target) (hnone : s.store.rows? t = none) :
    (target.evaluate none).runFrom s = (.error (.tableNotFound t), s) := by
  have htable : ((Term.table t).evaluate none).runFrom s = (.error (.tableNotFound t), s) := by
    have hrows : (Eval.rows t).runFrom s = (.error (.tableNotFound t), s) := by
      rw [runFrom_rows, Store.rows, hnone]
    rw [evaluate, evaluateIn, Eval.runFrom_bind, hrows]
  cases h with
  | table => exact htable
  | get _ => exact evaluate_call_error htable _ _
  | getAll _ => exact evaluate_call_error htable _ _

/-- A key that no row can have is refused. -/
theorem evaluate_get_illegal {key : Value} {live : List Value}
    (hlive : s.store.rows? t = some live) (hkey : key.isValidKey = false) :
    ((call "get" (table t) [datum key]).evaluate none).runFrom s =
      (.error (.illegalKey true), s) := by
  have hillegal : Selection.checkKey true key = .error (.illegalKey true) :=
    if_neg (Bool.eq_false_iff.mp hkey)
  rw [evaluate_get_datum hlive, hillegal]
  rfl

theorem evaluate_getAll_nil {live : List Value} (hlive : s.store.rows? t = some live) :
    ((call "getAll" (table t) []).evaluate none).runFrom s =
      (.error (.argumentCount "getAll" .atLeast 1 0), s) := by
  have hcall := (prepared_datums hlive []).evaluate_call describe_getAll
  rw [Registry.runFrom_apply] at hcall
  exact hcall

/-- Every target fails in the same way whatever its table holds, or selects rows by a test. A single
row is tested by its key. -/
theorem Target.chooses (h : Target t target) :
    (∃ error, ∀ (s : State) (live : List Value), s.store.rows? t = some live →
      (target.evaluate none).runFrom s = (.error error, s)) ∨
    ∃ type test, Chooses target t type test ∧ (type = .selection → ByKey test) := by
  cases h with
  | table =>
    refine .inr ⟨.table, fun _ => true, ?_, fun htype => nomatch htype⟩
    intro s live hlive _
    refine ⟨.ofTable t live, evaluate_table hlive, rfl, ⟨rfl, hlive, rfl⟩, ?_⟩
    exact (List.filter_eq_self.mpr fun _ _ => rfl).symm
  | @get key hkey =>
    by_cases hlegal : key.isValidKey = true
    · refine .inr ⟨.selection, Value.hasId key, ?_, fun _ => byKey_hasId key⟩
      intro s live hlive hkeyed
      refine ⟨_, evaluate_get hlive hlegal, rfl, ⟨rfl, hlive, ?_⟩, ?_⟩
      · cases hfind : live.find? (Value.hasId key) with
        | none => exact .inl rfl
        | some row => exact .inr (List.mem_of_find?_eq_some hfind)
      -- at most one row has the key
      · rw [hkeyed.filter_hasId hkey]
        cases hfind : live.find? (Value.hasId key) with
        | none => rfl
        | some row =>
          exact selectedRows_of_isRow (hkeyed.isRow row (List.mem_of_find?_eq_some hfind))
    · refine .inl ⟨.illegalKey true, fun s live hlive => ?_⟩
      exact evaluate_get_illegal hlive (by simpa using hlegal)
  | getAll keys =>
    rcases keys with _ | ⟨key, rest⟩
    · exact .inl ⟨_, fun s live hlive => evaluate_getAll_nil hlive⟩
    cases hfound : Selection.getAllKeys (key :: rest) with
    | error error =>
      refine .inl ⟨error, fun s live hlive => ?_⟩
      rw [evaluate_getAll_cons hlive, hfound]
      rfl
    | ok found =>
      refine .inr ⟨.selectionArray, fun row => (row.field? found.1).any fun field =>
        found.2.any (Selection.keyMatches field), ?_, fun htype => nomatch htype⟩
      intro s live hlive _
      have heval := evaluate_getAll_cons hlive key rest
      rw [hfound] at heval
      exact ⟨_, heval, rfl, ⟨rfl, hlive, _, rfl, List.filter_sublist.subperm⟩, rfl⟩

/-- In a state a target fails, or it selects rows of its table by a test. -/
theorem Target.fails_or_chooses (h : Target t target) (s : State) :
    (∃ error, (target.evaluate none).runFrom s = (.error error, s)) ∨
      ∃ live type test, s.store.rows? t = some live ∧ Chooses target t type test ∧
        (type = .selection → ByKey test) := by
  cases hlive : s.store.rows? t with
  | none => exact .inl ⟨_, h.missing hlive⟩
  | some live =>
    rcases h.chooses with ⟨error, herror⟩ | ⟨type, test, hchooses, hkey⟩
    · exact .inl ⟨error, herror s live hlive⟩
    · exact .inr ⟨live, type, test, rfl, hchooses, hkey⟩

end Term

end TableQuery
