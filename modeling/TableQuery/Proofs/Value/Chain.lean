import TableQuery.Proofs.Action.Deferral
import TableQuery.Proofs.Value.Comparison

namespace TableQuery

namespace Comparison

variable {holds : Ordering → Bool} {action other : String}

def PassesOn (holds : Ordering → Bool) : Prop :=
  ∀ a b c : Value, holds (a.compare b) = true → holds (b.compare c) = true →
    holds (a.compare c) = true

def turned (holds : Ordering → Bool) (o : Ordering) : Bool := holds o.swap

theorem turned_compare (holds : Ordering → Bool) (a b : Value) :
    turned holds (a.compare b) = holds (b.compare a) := by
  rw [turned, ← Value.compare_swap]

theorem PassesOn.turned (h : PassesOn holds) : PassesOn (turned holds) := by
  intro a b c hab hbc
  rw [turned_compare] at hab hbc ⊢
  exact h c b a hbc hab

theorem passesOn_less : PassesOn (· == .lt) := by
  intro a b c hab hbc
  rw [beq_iff_eq] at hab hbc ⊢
  exact Std.TransCmp.lt_trans hab hbc

theorem passesOn_notGreater : PassesOn (· != .gt) := by
  intro a b c hab hbc
  rw [bne_iff_ne, Ne, ← Ordering.isLE_iff_ne_gt] at hab hbc ⊢
  exact Std.TransCmp.isLE_trans hab hbc

/-- A chain is gone through from neighbour to neighbour. -/
theorem chain_iff_isChain (holds : Ordering → Bool) (v : Value) (rest : List Value) :
    chain holds v rest = true ↔
      (v :: rest).IsChain fun a b => holds (a.compare b) = true := by
  induction rest generalizing v with
  | nil => exact iff_of_true rfl (.singleton v)
  | cons next rest ih => rw [chain, Bool.and_eq_true, ih, List.isChain_cons_cons]

theorem chain_iff_pairwise (h : PassesOn holds) (v : Value) (rest : List Value) :
    chain holds v rest = true ↔
      (v :: rest).Pairwise fun a b => holds (a.compare b) = true := by
  let R (a b : Value) : Prop := holds (a.compare b) = true
  have htrans : Trans R R R := ⟨fun hab hbc => h _ _ _ hab hbc⟩
  exact (chain_iff_isChain holds v rest).trans List.isChain_iff_pairwise

/-- A chain that is read from its end. -/
theorem chain_turned (h : PassesOn holds) {v last : Value} {rest others : List Value}
    (hreverse : (v :: rest).reverse = last :: others) :
    chain (turned holds) v rest = chain holds last others := by
  apply Bool.eq_iff_iff.mpr
  calc chain (turned holds) v rest = true
    _ ↔ (v :: rest).Pairwise fun a b => turned holds (a.compare b) = true :=
      chain_iff_pairwise h.turned v rest
    _ ↔ (v :: rest).Pairwise fun a b => holds (b.compare a) = true := by
      simp only [turned_compare]
    _ ↔ (v :: rest).reverse.Pairwise fun a b => holds (a.compare b) = true :=
      List.pairwise_reverse.symm
    _ ↔ chain holds last others = true := by
      rw [hreverse, chain_iff_pairwise h]

theorem turned_less : turned (· == .lt) = (· == .gt) := by
  funext o
  cases o <;> rfl

theorem turned_notGreater : turned (· != .gt) = (· != .lt) := by
  funext o
  cases o <;> rfl

def body (action : String) (receiver : Value) (args : List Value) : Act Value := do
  let d ← ofExcept (Registry.builtin.describe action)
  d.implementation.call receiver (args.map .datum)

def TestsChain (action : String) (holds : Ordering → Bool) : Prop :=
  Registry.builtin.describe action = .ok ⟨.oneOrMore, .datum, .variadic (test (chain holds))⟩

theorem TestsChain.body_eq (h : TestsChain action holds) (v : Value) (rest : List Value) :
    body action v rest = pure (.bool (chain holds v rest)) := by
  have hbody : body action v rest = test (chain holds) v (rest.map .datum) := by
    rw [body, h]
    rfl
  rw [hbody, test, Act.resolveAll_datums, pure_bind]

theorem TestsChain.invoke_eq (h : TestsChain action holds) (v next : Value) (rest : List Value) :
    Registry.builtin.invoke action v ((next :: rest).map .datum) =
      body action v (next :: rest) := by
  rw [Registry.invoke_oneOrMore h, body, h]
  rfl

/-- An action on the first of some values, with the others for arguments, tells whether `R` holds of
the comparison of each value with every later one. A call has to have an argument. -/
structure Orders (action : String) (R : Ordering → Prop) : Prop where
  body_eq : ∀ v rest, ∃ truth : Bool, body action v rest = pure (.bool truth) ∧
    (truth = true ↔ (v :: rest).Pairwise fun a b => R (a.compare b))
  invoke_eq : ∀ v next rest, Registry.builtin.invoke action v ((next :: rest).map .datum) =
    body action v (next :: rest)
  refused : ∀ v, Registry.builtin.invoke action v [] =
    throw (.argumentCount action .atLeast 1 0)

structure Mirrors (action other : String) : Prop where
  body_eq : ∀ v rest last others, (v :: rest).reverse = last :: others →
    body action v rest = body other last others
  invoke_eq : ∀ v next rest last others, (v :: next :: rest).reverse = last :: others →
    Registry.builtin.invoke action v ((next :: rest).map .datum) =
      Registry.builtin.invoke other last (others.map .datum)

theorem TestsChain.orders (h : TestsChain action holds) (hpasses : PassesOn holds)
    {R : Ordering → Prop} (hR : ∀ o, holds o = true ↔ R o) : Orders action R where
  body_eq v rest := by
    refine ⟨chain holds v rest, h.body_eq v rest, ?_⟩
    rw [chain_iff_pairwise hpasses]
    simp only [hR]
  invoke_eq := h.invoke_eq
  refused v := Registry.invoke_oneOrMore h v []

theorem TestsChain.mirrors (h : TestsChain action (turned holds)) (hother : TestsChain other holds)
    (hpasses : PassesOn holds) : Mirrors action other := by
  have hbody (v : Value) (rest : List Value) (last : Value) (others : List Value)
      (hreverse : (v :: rest).reverse = last :: others) :
      body action v rest = body other last others := by
    calc body action v rest
      _ = pure (.bool (chain (turned holds) v rest)) := h.body_eq v rest
      _ = pure (.bool (chain holds last others)) := by rw [chain_turned hpasses hreverse]
      _ = body other last others := (hother.body_eq last others).symm
  refine ⟨hbody, fun v next rest last others hreverse => ?_⟩
  -- a chain with an argument has one when it is read from its end, too
  cases others with
  | nil =>
    have hlength := congrArg List.length hreverse
    simp at hlength
  | cons second others => rw [h.invoke_eq, hother.invoke_eq, hbody _ _ _ _ hreverse]

/-- The orderings tell of every two values of a chain, and two of them are the other two on the
chain read from its end. -/
theorem orderings_pairwise :
    Orders "lt" (· = .lt) ∧ Orders "le" (· ≠ .gt) ∧ Orders "gt" (· = .gt) ∧ Orders "ge" (· ≠ .lt) ∧
      Mirrors "gt" "lt" ∧ Mirrors "ge" "le" := by
  have hless : TestsChain "lt" (· == .lt) := rfl
  have hnotGreater : TestsChain "le" (· != .gt) := rfl
  have hgreater : TestsChain "gt" (turned (· == .lt)) := by
    rw [turned_less]
    rfl
  have hnotLess : TestsChain "ge" (turned (· != .gt)) := by
    rw [turned_notGreater]
    rfl
  refine ⟨?_, ?_, ?_, ?_, ?_, ?_⟩
  · exact hless.orders passesOn_less fun _ => beq_iff_eq
  · exact hnotGreater.orders passesOn_notGreater fun _ => bne_iff_ne
  · apply hgreater.orders passesOn_less.turned
    rw [turned_less]
    exact fun _ => beq_iff_eq
  · apply hnotLess.orders passesOn_notGreater.turned
    rw [turned_notGreater]
    exact fun _ => bne_iff_ne
  · exact hgreater.mirrors hless passesOn_less
  · exact hnotLess.mirrors hnotGreater passesOn_notGreater

end Comparison

end TableQuery
