import TableQuery.Proofs.Action.Deferral
import TableQuery.Proofs.Loops

namespace TableQuery

namespace Range

variable {α β : Type} {R : α → β → Prop} {xs : List α} {ys : List β}

theorem flagged_eq_self {flags : List Bool}
    (h : List.Forall₂ (fun _ flag => flag = true) xs flags) : flagged xs flags = xs := by
  induction h with
  | nil => rfl
  | @cons x flag xs flags hflag _ ih =>
    subst hflag
    exact congrArg (x :: ·) ih

end Range

namespace Sequence

def answer (action : String) (items : List Value) (arg : Argument) : Act Value :=
  Registry.builtin.invoke action (.array items) [arg]

def Holds (run : Option Value → Eval Value) (s : State) (item : Value) : Prop :=
  ∃ v, (Argument.deferred run).valueFor s item = .ok v ∧ v.isTruthy = true

variable {run : Option Value → Eval Value} {items : List Value} {c : Context}

/-- Both searches come from the same flags. -/
theorem runFrom_searches (run : Option Value → Eval Value) (items : List Value) (c : Context) :
    let out := (Range.flags run items).runFrom c
    (answer "offsetsOf" items (.deferred run)).runFrom c =
        (out.1.map fun flags =>
          .array ((Range.flagged (List.range items.length) flags).map .ofNat), out.2) ∧
      (answer "filter" items (.deferred run)).runFrom c =
        (out.1.map fun flags => .array (Range.flagged items flags), out.2) := by
  have hoffsets : answer "offsetsOf" items (.deferred run) =
      (do return .array ((← Range.offsetsWhere run items).map .ofNat) : Act Value) := rfl
  have hfilter : answer "filter" items (.deferred run) =
      (do return .array (← Range.rowsWhere run items) : Act Value) := rfl
  rw [hoffsets, hfilter, Range.offsetsWhere_bind, Range.rowsWhere_bind]
  exact ⟨run_map (Range.flags run items) _ c, run_map (Range.flags run items) _ c⟩

/-- A predicate that leaves the state as it is gives each item a flag of its own. -/
theorem runFrom_flags (h : (Argument.deferred run).Leaves c.state) (items : List Value) :
    (Range.flags run items).runFrom c =
      (items.mapM fun item =>
        ((Argument.deferred run).valueFor c.state item).map Value.isTruthy, c) := by
  let flag (item : Value) : Act Bool := do
    return (← Act.evalRow item (.deferred run)).isTruthy
  have hflag (item : Value) : (flag item).runFrom c =
      (((Argument.deferred run).valueFor c.state item).map Value.isTruthy, c) := by
    rw [Act.runFrom, run_map, ← Act.runFrom, Act.runFrom_evalRow h]
  have hloop : (items.mapM flag).runFrom c =
      (items.mapM fun item => ((flag item).runFrom c).1, c) :=
    run_mapM fun item _ => congrArg Prod.snd (hflag item)
  simp only [hflag] at hloop
  exact hloop

end Sequence

end TableQuery
