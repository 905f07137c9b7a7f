import TableQuery.Database
import TableQuery.Proofs.Action.Registration
import TableQuery.Proofs.Term.RowFree

namespace TableQuery

/-- The bound of a range that a count breaks, and its number. A range of one count is named by this
count, any other range by the end that the count lies beyond. -/
inductive Arity.Breaks (count : Nat) : Arity → Bound → Nat → Prop
  | exactly {n : Nat} (ne : count ≠ n) : Breaks count ⟨n, some n⟩ .exactly n
  | atMost {min max : Nat} (range : min < max) (above : max < count) :
      Breaks count ⟨min, some max⟩ .atMost max
  | atLeast {min : Nat} {max : Option Nat} (range : ∀ n ∈ max, min < n) (below : count < min) :
      Breaks count ⟨min, max⟩ .atLeast min

/-- An argument as evaluation hands it to an action: a value, or a term that is evaluated later, for
the row that the action gives it or else for the row around the call. -/
inductive Argument.Built : Argument → Prop
  | datum (v : Value) : Built (.datum v)
  | deferred (t : Term) (outer : Option Value) :
      Built (.deferred fun inner => t.runIn .builtin (inner.or outer))

def TellsMissing {α : Type} (outcome : Except Error α) : Prop :=
  outcome = .error .undefinedArgument ∨ outcome = .error .undefinedKey

def Error.NotMissing (e : Error) : Prop := e ≠ .undefinedArgument ∧ e ≠ .undefinedKey

theorem not_tellsMissing {α : Type} {outcome : Except Error α}
    (h : FailsOnly Error.NotMissing outcome) : ¬ TellsMissing outcome := by
  rintro (rfl | rfl)
  · exact (h _ rfl).1 rfl
  · exact (h _ rfl).2 rfl

theorem Error.notMissing_of_ofQuery (e : Error) (h : e.ofQuery = true) : e.NotMissing := by
  constructor
  all_goals
    rintro rfl
    cases h

theorem Arity.breaks_broken {a : Arity} {count : Nat} (hrange : a.isRange = true)
    (h : a.accepts count ≠ true) : a.Breaks count (a.broken count).1 (a.broken count).2 := by
  rw [ne_eq, Arity.accepts_iff] at h
  rw [Arity.isRange_iff] at hrange
  obtain ⟨min, max⟩ := a
  cases max with
  | none =>
    simp only [Option.mem_def, reduceCtorEq, false_implies, implies_true, and_true] at h
    exact .atLeast (by simp) (by omega)
  | some max =>
    simp only [Option.mem_def, Option.some.injEq, forall_eq'] at h hrange
    -- the message depends on the shape of the range first, and then on the end that is broken
    simp only [Arity.broken]
    split
    · next hone =>
      subst hone
      exact .exactly (by omega)
    · split
      · exact .atMost (by omega) (by assumption)
      · exact .atLeast (by simp; omega) (by omega)

namespace Term

theorem evaluate_notMissing (t : Term) (current : Option Value) :
    Raises Error.NotMissing (t.evaluate current) :=
  evaluate_raises Error.notMissing_of_ofQuery t current fun _ _ => ⟨nofun, nofun⟩

theorem runIn_notMissing (t : Term) (current : Option Value) :
    Raises Error.NotMissing (t.runIn .builtin current) :=
  .map (evaluate_notMissing t current)

/-- Evaluation makes no other arguments. -/
theorem built_of_evaluateArguments (args : List Term) (current : Option Value) :
    Keeps (fun _ => True) (fun as => ∀ a ∈ as, a.Built)
      (evaluateArguments .builtin args current) := by
  rw [evaluateArguments_eq]
  refine Keeps.mapM fun t _ => ?_
  unfold argumentIn
  split
  · exact Keeps.pure (.deferred t current)
  · exact Keeps.map (P := fun _ => True) (fun _ _ => ⟨trivial, fun _ _ => trivial⟩)
      fun v _ => .datum v

end Term

theorem Argument.Built.raises {a : Argument} (h : a.Built) : a.Raises Error.NotMissing := by
  cases h with
  | datum v => exact trivial
  | deferred t outer => exact fun row => Term.runIn_notMissing t (row.or outer)

theorem Term.exists_of_parse_error {query : String} {e : Error} (h : parse query = .error e) :
    ∃ cause, e = .parse cause := by
  unfold parse at h
  split at h
  · exact ⟨_, (Except.error.inj h).symm⟩
  · split at h
    · exact ⟨_, (Except.error.inj h).symm⟩
    · split at h
      · exact ⟨_, (Except.error.inj h).symm⟩
      · cases h

theorem Database.runTerm_notMissing (t : Term) (db : Database) :
    FailsOnly Error.NotMissing (db.runTerm t).1 :=
  t.runIn_notMissing none db.state

theorem Database.run_notMissing (query : String) (db : Database) :
    FailsOnly Error.NotMissing (db.run query).1 := by
  unfold run runIn
  split
  · exact runTerm_notMissing _ db
  · next e hparse =>
    obtain ⟨cause, rfl⟩ := Term.exists_of_parse_error hparse
    exact .error ⟨nofun, nofun⟩

namespace Registry

variable {action : String} {d : Descriptor}

theorem isRange_of_mem_catalogue : ∀ e ∈ catalogue, e.arity.isRange = true := by decide

theorem runFrom_invoke_of_not_accepts (hd : builtin.describe action = .ok d)
    {args : List Argument} (h : d.arity.accepts args.length ≠ true) (receiver : Value)
    (c : Context) : (builtin.invoke action receiver args).runFrom c =
      (.error (.argumentCount action (d.arity.broken args.length).1
        (d.arity.broken args.length).2 args.length), c) := by
  obtain ⟨entry, hentry, rfl, rfl⟩ := describe_builtin hd
  rw [invoke_builtin hentry hd, Arity.check, if_neg h]
  rfl

/-- A call of an action with fewer or more arguments than its range allows, whatever these are, is
an error that names the number of them and the bound that it breaks; its context is left as it is,
with the state in it. A call with arguments as evaluation makes them, and it makes no others, never
tells of an argument that is not there; nor does the evaluation of a term, or a query. -/
theorem invoke_arity (hd : builtin.describe action = .ok d) :
    (∀ receiver args c,
      (args.length < d.arity.min ∨ ∃ max ∈ d.arity.max, max < args.length) →
      ∃ bound limit, d.arity.Breaks args.length bound limit ∧
        (builtin.invoke action receiver args).runFrom c =
          (.error (.argumentCount action bound limit args.length), c)) ∧
    (∀ receiver args c, (∀ a ∈ args, a.Built) →
      ¬ TellsMissing ((builtin.invoke action receiver args).runFrom c).1) ∧
    (∀ terms current s args, ((Term.evaluateArguments .builtin terms current).runFrom s).1 = .ok args →
      ∀ a ∈ args, a.Built) ∧
    (∀ (t : Term) current s, ¬ TellsMissing ((t.evaluate current).runFrom s).1) ∧
    ∀ (db : Database), (∀ t, ¬ TellsMissing (db.runTerm t).1) ∧
      ∀ query, ¬ TellsMissing (db.run query).1 := by
  refine ⟨fun receiver args c hcount => ?_, fun receiver args c hbuilt => ?_, ?_, ?_, ?_⟩
  · have hrange : d.arity.isRange = true := by
      obtain ⟨entry, hentry, -, rfl⟩ := describe_builtin hd
      exact isRange_of_mem_catalogue entry hentry
    -- the count is checked against the range that the catalogue gives, before the body runs
    have hrefused : d.arity.accepts args.length ≠ true := by
      rw [ne_eq, Arity.accepts_iff]
      rintro ⟨hmin, hmax⟩
      rcases hcount with hfew | ⟨max, hmem, hmany⟩
      · omega
      · exact absurd (hmax max hmem) (by omega)
    exact ⟨_, _, Arity.breaks_broken hrange hrefused,
      runFrom_invoke_of_not_accepts hd hrefused receiver c⟩
  · have hraises : Raises Error.NotMissing (builtin.invoke action receiver args) :=
      invoke_raises Error.notMissing_of_ofQuery fun a ha => (hbuilt a ha).raises
    exact not_tellsMissing (hraises c)
  · exact fun terms current s args hargs =>
      (Term.built_of_evaluateArguments terms current s trivial).2 args hargs
  · exact fun t current s => not_tellsMissing (Term.evaluate_notMissing t current s)
  · exact fun db => ⟨fun t => not_tellsMissing (db.runTerm_notMissing t),
      fun query => not_tellsMissing (db.run_notMissing query)⟩

/-- A row to insert, or a row and options: a third argument is refused, given or not. A row that is
found later is no missing one, even if it is not found; a row that nobody gives would be told of. -/
theorem invoke_arity_insert :
    let c : Context := ⟨.table, { table := some "t" }, ⟨⟨[("t", [])]⟩, ⟨fun _ _ => ""⟩, 0⟩⟩
    let given : Argument := .datum (.bool true)
    let later : Argument := .deferred fun inner => Term.row.runIn .builtin (inner.or none)
    let insert (args : List Argument) := (builtin.invoke "insert" (.array []) args).runFrom c
    builtin.describe "insert" = .ok ⟨.oneOrTwo, .datum, .binary Mutation.insert⟩ ∧
      (∃ bound limit, Arity.oneOrTwo.Breaks 3 bound limit ∧
        insert [given, given, .undefined] = (.error (.argumentCount "insert" bound limit 3), c)) ∧
      ¬ TellsMissing (insert [later]).1 ∧ TellsMissing (insert [.undefined]).1 := by
  intro c given later insert
  have hd : builtin.describe "insert" = .ok ⟨.oneOrTwo, .datum, .binary Mutation.insert⟩ := rfl
  obtain ⟨hcount, hbuilt, -⟩ := invoke_arity hd
  have hmany := hcount (.array []) [given, given, .undefined] c (.inr ⟨2, rfl, by decide⟩)
  refine ⟨hd, hmany, hbuilt (.array []) [later] c ?_, .inl rfl⟩
  intro a ha
  obtain rfl := List.mem_singleton.mp ha
  exact .deferred .row none

end Registry

end TableQuery
