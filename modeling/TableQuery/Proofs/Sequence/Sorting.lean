import TableQuery.Proofs.Action.Reading
import TableQuery.Proofs.Value.Comparison

namespace TableQuery

namespace Sequence

variable {name : String} {rows xs ys : List Value} {a b c key : Value}

-- A missing field counts as `null`, both here and in the order below.
def tied (name : String) (key row : Value) : Bool :=
  ((row.field? name).getD .null).compare key == .eq

def notAfter (name : String) (a b : Value) : Bool :=
  ((a.field? name).getD .null).compare ((b.field? name).getD .null) != .gt

structure StablySorted (name : String) (rows sorted : List Value) : Prop where
  perm : sorted.Perm rows
  ordered : sorted.Pairwise fun a b => notAfter name a b = true
  stable : ∀ key : Value, sorted.filter (tied name key) = rows.filter (tied name key)

theorem notAfter_iff_isLE : notAfter name a b = true ↔
    (((a.field? name).getD .null).compare ((b.field? name).getD .null)).isLE = true :=
  bne_iff_ne.trans Ordering.isLE_iff_ne_gt.symm

theorem notAfter_trans (a b c : Value) (hab : notAfter name a b = true)
    (hbc : notAfter name b c = true) : notAfter name a c = true := by
  rw [notAfter_iff_isLE] at hab hbc ⊢
  exact Std.TransCmp.isLE_trans hab hbc

theorem notAfter_total (a b : Value) : (notAfter name a b || notAfter name b a) = true := by
  rw [notAfter, notAfter, Value.compare_swap ((a.field? name).getD .null)]
  cases ((a.field? name).getD .null).compare ((b.field? name).getD .null) <;> decide

theorem tied_self (a : Value) : tied name ((a.field? name).getD .null) a = true :=
  beq_iff_eq.mpr Std.ReflCmp.compare_self

/-- Rows neither of which comes after the other are tied. -/
theorem tied_of_notAfter (hab : notAfter name a b = true) (hba : notAfter name b a = true) :
    tied name ((a.field? name).getD .null) b = true := by
  rw [notAfter_iff_isLE] at hab hba
  exact beq_iff_eq.mpr (Std.OrientedCmp.isLE_antisymm hba hab)

/-- Rows that are tied with one key may stand in any order. -/
theorem notAfter_of_tied (ha : tied name key a = true) (hb : tied name key b = true) :
    notAfter name a b = true := by
  have hkey := Std.OrientedCmp.eq_symm (beq_iff_eq.mp hb)
  rw [notAfter, Std.TransCmp.eq_trans (beq_iff_eq.mp ha) hkey]
  decide

/-- Tied rows are in order as they stand, so that sorting does not touch them. -/
theorem filter_mergeSort (name : String) (key : Value) (rows : List Value) :
    (rows.mergeSort (notAfter name)).filter (tied name key) = rows.filter (tied name key) := by
  have hordered : (rows.filter (tied name key)).Pairwise fun a b => notAfter name a b = true := by
    apply List.pairwise_of_forall_mem_list
    intro a ha b hb
    exact notAfter_of_tied (List.mem_filter.mp ha).2 (List.mem_filter.mp hb).2
  have hkept := List.sublist_mergeSort notAfter_trans notAfter_total hordered
    List.filter_sublist
  have hsub := hkept.filter (tied name key)
  rw [List.filter_filter] at hsub
  simp only [Bool.and_self] at hsub
  have hperm := (List.mergeSort_perm rows (notAfter name)).filter (tied name key)
  exact (hsub.eq_of_length hperm.length_eq.symm).symm

theorem stablySorted_mergeSort (name : String) (rows : List Value) :
    StablySorted name rows (rows.mergeSort (notAfter name)) where
  perm := List.mergeSort_perm rows (notAfter name)
  ordered := List.pairwise_mergeSort notAfter_trans notAfter_total rows
  stable key := filter_mergeSort name key rows

/-- A row that is first in the order of a field comes after no other. -/
theorem notAfter_head {first : Value}
    (h : (first :: xs).Pairwise fun a b => notAfter name a b = true)
    (ha : a ∈ first :: xs) : notAfter name first a = true := by
  rcases List.mem_cons.mp ha with rfl | hrest
  · exact notAfter_of_tied (tied_self a) (tied_self a)
  · exact List.rel_of_pairwise_cons h hrest

theorem mem_of_filter_eq
    (h : ∀ key, xs.filter (tied name key) = ys.filter (tied name key)) (ha : a ∈ xs) : a ∈ ys := by
  have hmem : a ∈ xs.filter (tied name ((a.field? name).getD .null)) :=
    List.mem_filter.mpr ⟨ha, tied_self a⟩
  rw [h] at hmem
  exact List.mem_of_mem_filter hmem

/-- Two lists in the order of a field are the same if the rows tied with any one key are. -/
theorem eq_of_filter_eq
    (hx : xs.Pairwise fun a b => notAfter name a b = true)
    (hy : ys.Pairwise fun a b => notAfter name a b = true)
    (h : ∀ key, xs.filter (tied name key) = ys.filter (tied name key)) : xs = ys := by
  induction xs generalizing ys with
  | nil =>
    cases ys with
    | nil => rfl
    | cons y ys =>
      have hmem := mem_of_filter_eq (fun key => (h key).symm) List.mem_cons_self
      exact absurd hmem List.not_mem_nil
  | cons x xs ih =>
    cases ys with
    | nil => exact absurd (mem_of_filter_eq h List.mem_cons_self) List.not_mem_nil
    | cons y ys =>
      -- each of the two first rows comes after no other, so they are tied
      have hyx := notAfter_head hy (mem_of_filter_eq h List.mem_cons_self)
      have hxy := notAfter_head hx (mem_of_filter_eq (fun key => (h key).symm) List.mem_cons_self)
      have htied := h ((x.field? name).getD .null)
      rw [List.filter_cons_of_pos (tied_self x),
        List.filter_cons_of_pos (tied_of_notAfter hxy hyx)] at htied
      obtain rfl := (List.cons.inj htied).1
      have hrest (key : Value) : xs.filter (tied name key) = ys.filter (tied name key) := by
        have hkey := h key
        rw [List.filter_cons, List.filter_cons] at hkey
        split at hkey
        · exact (List.cons.inj hkey).2
        · exact hkey
      rw [ih hx.of_cons hy.of_cons hrest]

/-- The order of a field and the order of the rows leave no choice. -/
theorem StablySorted.unique (hx : StablySorted name rows xs) (hy : StablySorted name rows ys) :
    xs = ys :=
  eq_of_filter_eq hx.ordered hy.ordered fun key => (hx.stable key).trans (hy.stable key).symm

theorem StablySorted.self (h : StablySorted name rows xs) : StablySorted name xs xs :=
  ⟨List.Perm.refl xs, h.ordered, fun _ => rfl⟩

/-- Only the fields of the rows themselves can be tied with any of them. -/
theorem stablySorted_iff : StablySorted name rows xs ↔ xs.Perm rows ∧
    xs.Pairwise (fun a b => notAfter name a b = true) ∧
    ∀ row ∈ rows, xs.filter (tied name ((row.field? name).getD .null)) =
      rows.filter (tied name ((row.field? name).getD .null)) := by
  constructor
  · exact fun h => ⟨h.perm, h.ordered, fun row _ => h.stable _⟩
  · rintro ⟨hperm, hordered, hstable⟩
    refine ⟨hperm, hordered, fun key => ?_⟩
    by_cases hkey : ∃ row ∈ rows, tied name key row = true
    · obtain ⟨row, hrow, htied⟩ := hkey
      -- what is tied with the key is tied with the row's field, and the other way round
      have hsame : tied name key = tied name ((row.field? name).getD .null) := by
        funext other
        rw [tied, tied, Std.TransCmp.congr_right (beq_iff_eq.mp htied)]
      rw [hsame, hstable row hrow]
    · have hnone (row : Value) (hrow : row ∈ rows) : ¬tied name key row = true :=
        fun htied => hkey ⟨row, hrow, htied⟩
      rw [List.filter_eq_nil_iff.mpr hnone,
        List.filter_eq_nil_iff.mpr fun row hrow => hnone row (hperm.mem_iff.mp hrow)]

def answerSorted (name : String) (rows : List Value) : Act Value :=
  Registry.builtin.invoke "orderBy" (.array rows) [.datum (.string name)]

theorem runFrom_answerSorted (name : String) (rows : List Value) (c : Context) :
    (answerSorted name rows).runFrom c = ((orderBy name rows).map .array, c) := by
  have hcall : (answerSorted name rows).runFrom c =
      (do return .array (← ofExcept (orderBy name rows)) : Act Value).runFrom c := rfl
  rw [hcall, Act.runFrom_bind, Act.runFrom_ofExcept]
  cases orderBy name rows <;> rfl

theorem orderBy_of_isObject (h : ∀ row ∈ rows, row.isObject = true) :
    orderBy name rows = .ok (rows.mergeSort (notAfter name)) := by
  rcases mapM_asFields_cases rows with ⟨-, fields, hfields⟩ | ⟨row, hmem, hrow, -⟩
  · unfold orderBy
    rw [hfields]
    rfl
  · rw [h row hmem] at hrow
    cases hrow

/-- `orderBy` fails, with an error of type, exactly if some row is no object. Otherwise its result
is the only list of the rows that is stably sorted, and sorting it again leaves it as it is. -/
theorem orderBy_stable (name : String) (rows : List Value) :
    (∀ c, (∃ e, (answerSorted name rows).runFrom c = (.error e, c) ∧ e.category = .type) ↔
        ∃ row ∈ rows, row.isObject = false) ∧
      ((∀ row ∈ rows, row.isObject = true) → ∃ sorted, StablySorted name rows sorted ∧
        (∀ other, StablySorted name rows other → other = sorted) ∧
        ∀ c, (answerSorted name rows).runFrom c = (.ok (.array sorted), c) ∧
          (answerSorted name sorted).runFrom c = (.ok (.array sorted), c)) := by
  constructor
  · intro c
    rw [runFrom_answerSorted]
    rcases mapM_asFields_cases rows with ⟨hall, -⟩ | ⟨row, hmem, hrow, herror⟩
    · rw [orderBy_of_isObject hall]
      apply iff_of_false
      · rintro ⟨e, he, -⟩
        cases he
      · rintro ⟨row, hmem, hrow⟩
        rw [hall row hmem] at hrow
        cases hrow
    · refine iff_of_true ⟨.kindMismatch .object row.kind, ?_, rfl⟩ ⟨row, hmem, hrow⟩
      unfold orderBy
      rw [herror]
      rfl
  · intro hall
    have hsorted := stablySorted_mergeSort name rows
    have hagain : ∀ row ∈ rows.mergeSort (notAfter name), row.isObject = true :=
      fun row hrow => hall row (hsorted.perm.mem_iff.mp hrow)
    -- what is sorted already is sorted in the only way that there is
    have hsame := (stablySorted_mergeSort name (rows.mergeSort (notAfter name))).unique hsorted.self
    refine ⟨_, hsorted, fun other hother => hother.unique hsorted, fun c => ⟨?_, ?_⟩⟩
    · rw [runFrom_answerSorted, orderBy_of_isObject hall]
      rfl
    · rw [runFrom_answerSorted, orderBy_of_isObject hagain, hsame]
      rfl

/-- In the order of their fields come an array, `null`, with which a missing field is tied, and two
strings. -/
theorem orderBy_stable_tied :
    let missing : Value := .object [("n", .bool true)]
    let empty : Value := .object [("k", .null)]
    let array : Value := .object [("k", .array [.null])]
    let a : Value := .object [("k", .string "a")]
    let b : Value := .object [("k", .string "b")]
    let rows := [b, missing, array, empty, a]
    (∀ row ∈ rows, row.isObject = true) ∧
      (∀ c, (answerSorted "k" rows).runFrom c =
        (.ok (.array [array, missing, empty, a, b]), c)) ∧
      ∀ c, ∃ e, (answerSorted "k" [b, .null]).runFrom c = (.error e, c) ∧ e.category = .type := by
  intro missing empty array a b rows
  have hall : ∀ row ∈ rows, row.isObject = true := by decide
  have hsorted : StablySorted "k" rows [array, missing, empty, a, b] := by
    refine stablySorted_iff.mpr ⟨?_, by decide, ?_⟩
    · exact (List.perm_append_singleton b [array, missing, empty, a]).trans
        (.cons b (.swap missing array [empty, a]))
    · intro row hrow
      simp only [rows, List.mem_cons, List.not_mem_nil, or_false] at hrow
      rcases hrow with rfl | rfl | rfl | rfl | rfl <;> rfl
  obtain ⟨sorted, -, honly, hanswer⟩ := (orderBy_stable "k" rows).2 hall
  obtain rfl := honly _ hsorted
  refine ⟨hall, fun c => (hanswer c).1, fun c => ?_⟩
  exact ((orderBy_stable "k" [b, .null]).1 c).mpr ⟨.null, .tail _ (.head _), rfl⟩

end Sequence

end TableQuery
