import Mathlib
import TableQuery.Proofs.Action.Deferral
import TableQuery.Proofs.Action.Failures

namespace TableQuery

def Error.ofQuery : Error → Bool
  | argumentCount .. | unknownAction _ => true
  | e => e.ofAction

theorem Error.ofQuery_of_ofAction {e : Error} (h : e.ofAction = true) : e.ofQuery = true := by
  cases e <;> first | rfl | exact h

/-- What is known of every result of the first part may be used for the second. -/
theorem Raises.bind_keeps {σ α β : Type} {E : Error → Prop} {P : α → Prop}
    {x : ExceptT Error (StateM σ) α} {f : α → ExceptT Error (StateM σ) β} (hx : Raises E x)
    (hP : Keeps (fun _ => True) P x) (hf : ∀ a, P a → Raises E (f a)) : Raises E (x >>= f) := by
  intro s
  have hfirst := hx s
  have hresult := (hP s trivial).2
  rw [run_bind]
  rcases hout : StateT.run (ExceptT.run x) s with ⟨e | a, next⟩
  · rw [hout] at hfirst
    exact .error (hfirst e rfl)
  · rw [hout] at hresult
    exact hf a (hresult a rfl) next

section

variable {E : Error → Prop} (hE : ∀ e : Error, e.ofQuery = true → E e)

include hE

namespace Registry

/-- A call with too few arguments is refused before its action could miss one. -/
theorem invoke_raises {action : String} {receiver : Value} {args : List Argument}
    (hargs : ∀ a ∈ args, a.Raises E) : Raises E (builtin.invoke action receiver args) := by
  cases hd : builtin.describe action with
  | error e =>
    have hunknown : e = .unknownAction action := by
      unfold describe at hd
      split at hd
      · cases hd
      · exact (Except.error.inj hd).symm
    rw [invoke, hd, hunknown]
    exact .throw_bind (hE _ rfl)
  | ok d =>
    obtain ⟨entry, hentry, rfl, rfl⟩ := describe_builtin hd
    rw [invoke_builtin hentry hd, Arity.check]
    split
    · next haccepts =>
      have hmin : entry.arity.min ≤ args.length := by
        rw [Arity.accepts, Bool.and_eq_true, decide_eq_true_eq] at haccepts
        exact haccepts.1
      have howned : ∀ e : Error, e.ofAction = true → E e :=
        fun e he => hE e (Error.ofQuery_of_ofAction he)
      exact raises_of_mem_catalogue howned hentry receiver args hargs
        fun hshort => absurd hshort (by omega)
    · exact .throw_bind (hE _ rfl)

theorem apply_raises {action : String} {receiver : Evaluated} {args : List Argument}
    {declared : TypeTag} (hargs : ∀ a ∈ args, a.Raises E) :
    Raises E (builtin.apply action receiver args declared) := by
  intro s
  have hcall : Raises E (builtin.invoke action receiver.value args) := invoke_raises hE hargs
  have hinvoke := hcall ⟨receiver.type, receiver.binding, s⟩
  have hrun := runFrom_apply builtin action receiver args declared s
  rw [Eval.runFrom] at hrun
  rw [hrun]
  exact .map hinvoke

end Registry

namespace Term

omit hE in
theorem anyReferencesRow_of_mem {items : List Term} {t : Term} (ht : t ∈ items)
    (h : t.referencesRow = true) : anyReferencesRow items = true := by
  by_contra hnone
  rw [Bool.not_eq_true, anyReferencesRow_eq_false] at hnone
  rw [hnone t ht] at h
  cases h

omit hE in
theorem anyFieldReferencesRow_of_mem {fields : List (String × Term)} {pair : String × Term}
    (hpair : pair ∈ fields) (h : pair.2.referencesRow = true) :
    anyFieldReferencesRow fields = true := by
  by_contra hnone
  rw [Bool.not_eq_true, anyFieldReferencesRow_eq_false] at hnone
  rw [hnone pair hpair] at h
  cases h

/-- A term, by induction, fails for a row that is not bound only if it mentions the row and there is
none. An argument that is deferred sees the row of its action, or else the row around the call: if
this is bound, so is every row that it may see. -/
theorem evaluate_raises (t : Term) (current : Option Value)
    (hrow : t.referencesRow = true → current = none → E .unboundRow) :
    Raises E (t.evaluate current) := by
  unfold evaluate
  induction t using Term.induction generalizing current with
  | table name =>
    have hrows : Raises E (Eval.rows name) := by
      intro s
      have hrun := runFrom_rows name s
      rw [Eval.runFrom] at hrun
      rw [hrun]
      exact (Checks.storeRows s.store name).imp fun e he => hE e (Error.ofQuery_of_ofAction he)
    rw [evaluateIn]
    exact .map hrows
  | datum v =>
    rw [evaluateIn]
    exact .pure _
  | row =>
    cases current with
    | none =>
      rw [evaluateIn]
      exact .throw (hrow rfl rfl)
    | some v =>
      rw [evaluateIn]
      exact .pure _
  | array items ih =>
    rw [evaluateIn, evaluateItems_eq]
    refine .map (.mapM fun t ht => ?_)
    exact .map (ih t ht current fun hmention => hrow (anyReferencesRow_of_mem ht hmention))
  | object fields ih =>
    rw [evaluateIn, evaluateFields_eq]
    refine .map (.mapM fun pair hpair => ?_)
    exact .map (.map (ih pair hpair current
      fun hmention => hrow (anyFieldReferencesRow_of_mem hpair hmention)))
  | call action receiver args ihr iha =>
    simp only [referencesRow, Bool.or_eq_true] at hrow
    have hargument (t : Term) (ht : t ∈ args) (row : Option Value)
        (hbound : row = none → current = none) : Raises E (t.runIn .builtin row) :=
      .map (iha t ht row fun hmention hnone =>
        hrow (.inr (anyReferencesRow_of_mem ht hmention)) (hbound hnone))
    rw [evaluateIn, evaluateArguments_eq]
    refine .bind (ihr current fun hmention => hrow (.inl hmention)) fun e => ?_
    have hdescribe : FailsOnly E (Registry.builtin.describe action) := by
      unfold Registry.describe
      split
      · exact .ok _
      · exact .error (hE _ rfl)
    refine .bind (.ofExcept hdescribe) fun d => ?_
    refine .bind_keeps (P := fun as => ∀ a ∈ as, a.Raises E) (.mapM fun t ht => ?_) ?_
      fun as has => Registry.apply_raises hE has
    · unfold argumentIn
      split
      · exact .pure _
      · exact .map (hargument t ht current id)
    · refine Keeps.mapM fun t ht => ?_
      unfold argumentIn
      split
      · refine Keeps.pure fun inner => hargument t ht _ fun hnone => ?_
        exact (Option.or_eq_none_iff.mp hnone).2
      · exact Keeps.map (P := fun _ => True) (fun _ _ => ⟨trivial, fun _ _ => trivial⟩)
          fun _ _ => trivial

omit hE in
theorem unboundRow_of_evaluate {t : Term} {current : Option Value} {s : State}
    (h : ((t.evaluate current).runFrom s).1 = .error .unboundRow) :
    t.referencesRow = true ∧ current = none := by
  let E (e : Error) : Prop := e.ofQuery = true ∨ t.referencesRow = true ∧ current = none
  have hraises : Raises E (t.evaluate current) :=
    evaluate_raises (fun e he => .inl he) t current fun hmention hnone => .inr ⟨hmention, hnone⟩
  rcases hraises s .unboundRow h with hquery | hunbound
  · cases hquery
  · exact hunbound

omit hE in
/-- A term that does not mention the current row gives the same under any two rows, or under none:
the same value, type and binding or the same error, and the same state with the same supply of keys.
It does not fail for want of a row. -/
theorem evaluate_rowFree {t : Term} (h : t.referencesRow = false) (s : State)
    (current other : Option Value) :
    (t.evaluate current).runFrom s = (t.evaluate other).runFrom s ∧
      ((t.evaluate current).runFrom s).1 ≠ .error .unboundRow := by
  constructor
  · rw [evaluate, evaluate, evaluateIn_eq_of_not_row .builtin h current other]
  · intro herror
    have hmention := (unboundRow_of_evaluate herror).1
    rw [h] at hmention
    cases hmention

omit hE in
/-- A row without a key is inserted under a fresh one, in one row expression and outside of all. -/
theorem evaluate_rowFree_insert :
    let fresh : Value := .object [("v", .bool true)]
    let t : Term := .call "insert" (.table "t") [.datum fresh]
    let s : State := ⟨⟨[("t", [])]⟩, ⟨fun n _ => if n = 0 then "first" else "next"⟩, 0⟩
    let inside := (t.evaluate (some fresh)).runFrom s
    t.referencesRow = false ∧ inside = (t.evaluate none).runFrom s ∧
      inside.2.store.rows? "t" = some [.object [("v", .bool true), ("id", .string "first")]] := by
  intro fresh t s inside
  have hfree : t.referencesRow = false := rfl
  exact ⟨hfree, (evaluate_rowFree hfree s (some fresh) none).1, by cbv⟩

end Term

end

end TableQuery
