import TableQuery.Proofs.Selection.Faithful
import TableQuery.Proofs.Sequence.Slice

namespace TableQuery

/-- A row that is picked from a stream can be bound if the table of the stream is there. -/
theorem Act.exists_runFrom_bindRow {c : Context}
    (h : c.type.isStream = true → ∃ live, c.rows = .ok live) (row : Value) (position : Nat) :
    ∃ next, (bindRow row position).runFrom c = (.ok (), next) := by
  rw [bindRow, runFrom_bind, runFrom_get]
  dsimp only
  cases hstream : c.type.isStream with
  | false => exact ⟨c, rfl⟩
  | true =>
    obtain ⟨live, hlive⟩ := h hstream
    have hset (hint : Option Nat) : (setRowIndex hint).runFrom c =
        (.ok (), { c with binding := { c.binding with rowIndex := hint } }) := rfl
    -- the table is looked up under its name, which stays bound
    have hlocate (hint : Option Nat) :
        Context.locate row { c with binding := { c.binding with rowIndex := hint } } =
          .ok (Context.position hint row live) := by
      have hrows : Context.rows { c with binding := { c.binding with rowIndex := hint } } =
          .ok live := hlive
      rw [Context.locate, hrows]
      rfl
    rw [if_pos rfl, runFrom_bind, hset]
    dsimp only
    rw [runFrom_bind, runFrom_ask, hlocate]
    exact ⟨_, rfl⟩

namespace Sequence

variable {items : List Value} {k : Int} {x y : Number} {c : Context}

def InRange (items : List Value) (k : Int) : Prop := -(items.length : Int) ≤ k ∧ k < items.length

theorem exists_nth (h : InRange items k) : ∃ p : Nat, ∃ item, fromEnd items.length k = p ∧
    items[p]? = some item ∧ nth items k = .ok item := by
  obtain ⟨hlow, hhigh⟩ := h
  have hpos : 0 ≤ fromEnd items.length k := by
    unfold fromEnd
    split <;> omega
  obtain ⟨p, hp⟩ := Int.eq_ofNat_of_zero_le hpos
  have hlt : p < items.length := by
    unfold fromEnd at hp
    split at hp <;> omega
  have hitem : items[p]? = some items[p] := List.getElem?_eq_getElem hlt
  refine ⟨p, items[p], hp, hitem, ?_⟩
  unfold nth
  dsimp only
  rw [hp, if_neg (by omega), Int.toNat_natCast, hitem]

theorem nth_of_not_inRange (h : ¬InRange items k) : nth items k = .error .indexOutOfBounds := by
  unfold nth
  dsimp only
  split
  · rfl
  · next hpos =>
    have hle : items.length ≤ (fromEnd items.length k).toNat := by
      unfold InRange at h
      unfold fromEnd at hpos ⊢
      split at hpos <;> omega
    rw [List.getElem?_eq_none hle]

def answerAt (action : String) (items : List Value) (x : Number) : Act Value :=
  Registry.builtin.invoke action (.array items) [.datum (.number x)]

theorem runFrom_limit (hk : x.IsInteger k) (items : List Value) (c : Context) :
    (answerAt "limit" items x).runFrom c =
      if k < 0 then (.error .negativeLimit, c) else (.ok (.array (items.take k.toNat)), c) := by
  have hlimit : (answerAt "limit" items x).runFrom c =
      (Range.limit (.array items) (.datum (.number x))).runFrom c := rfl
  have hresolve : (Act.resolve (.datum (.number x))).runFrom c = (.ok (.number x), c) := rfl
  have hscaled : (Value.number x).asScaled = .ok x.toScaled := rfl
  rw [hlimit, Range.limit, Act.runFrom_bind, hresolve]
  dsimp only
  rw [Act.runFrom_bind, Act.runFrom_ofExcept, hscaled]
  dsimp only
  rw [Scaled.truncate_of_toInt hk.toInt_eq]
  split
  · next hneg =>
    rw [if_pos (hk.toInt_neg_iff.mp hneg)]
    rfl
  · next hpos =>
    rw [if_neg (mt hk.toInt_neg_iff.mpr hpos)]
    rfl

/-- From the end of a stream `nth` takes the last item only. -/
theorem runFrom_nth (hk : x.IsInteger k) (items : List Value) (c : Context) :
    (answerAt "nth" items x).runFrom c =
      if k < -1 && c.type.isStream then (.error .streamIndex, c)
      else match nth items k with
        | .ok row => (do
            Act.bindRow row (fromEnd items.length k).toNat
            return row : Act Value).runFrom c
        | .error e => (.error e, c) :=
  Access.runFrom_nthRow_eq (Access.wholeIndex_of_isInteger hk) c

/-- A slice without options takes the items from one position up to before another. -/
theorem runFrom_slice_plain {ends : List Value} {stop : Option Int} (hk : x.IsInteger k)
    (hends : Ends ends stop) (items : List Value) (c : Context) :
    (answerSlice items x ends none).runFrom c =
      (.ok (.array ((items.take (endPosition [] items.length stop)).drop
        (fromEnd items.length k).toNat)), c) := by
  rw [runFrom_slice hk hends, ← drop_take_min_length, ← take_min_length]
  cases stop with
  | none =>
    rw [endPosition, Nat.min_self]
    rfl
  | some e => rfl

/-- The item at a position is what is before the next position and not before this one. -/
theorem drop_take_of_getElem? {p : Nat} {item : Value} (h : items[p]? = some item) :
    (items.take (p + 1)).drop p = [item] := by
  obtain ⟨hlt, -⟩ := List.getElem?_eq_some_iff.mp h
  have hlength : (items.take p).length = p := List.length_take_of_le (Nat.le_of_lt hlt)
  rw [List.take_add_one, h]
  exact List.drop_left' hlength

structure PicksItem (items : List Value) (x : Number) (k : Int) (c : Context) : Prop where
  succeeds_iff : (∃ item next, (answerAt "nth" items x).runFrom c = (.ok item, next)) ↔
    -(items.length : Int) ≤ k ∧ k < items.length
  item_eq : ∀ item next, (answerAt "nth" items x).runFrom c = (.ok item, next) →
    items[(if 0 ≤ k then k else items.length + k).toNat]? = some item
  slice_eq : ∀ item next, (answerAt "nth" items x).runFrom c = (.ok item, next) → k ≠ -1 →
    ∀ y : Number, y.IsInteger (k + 1) →
      (answerSlice items x [.number y] none).runFrom c = (.ok (.array [item]), c)

theorem picksItem (hk : x.IsInteger k) (hallowed : (k < -1 && c.type.isStream) = false)
    (hbound : c.type.isStream = true → ∃ live, c.rows = .ok live) : PicksItem items x k c := by
  have hnth := runFrom_nth hk items c
  rw [hallowed, if_neg Bool.false_ne_true] at hnth
  by_cases hrange : InRange items k
  · obtain ⟨p, item, hp, hitem, hfound⟩ := exists_nth hrange
    obtain ⟨next, hbind⟩ := Act.exists_runFrom_bindRow hbound item (fromEnd items.length k).toNat
    have hrun : (answerAt "nth" items x).runFrom c = (.ok item, next) := by
      rw [hnth, hfound]
      dsimp only
      rw [Act.runFrom_bind, hbind]
      rfl
    refine ⟨iff_of_true ⟨item, next, hrun⟩ hrange, ?_, ?_⟩
    · intro item' next' h
      cases hrun.symm.trans h
      have hcounted : (if 0 ≤ k then k else items.length + k) = fromEnd items.length k := by
        unfold fromEnd
        split <;> split <;> omega
      rw [hcounted, hp, Int.toNat_natCast, hitem]
    · intro item' next' h hne y hy
      cases hrun.symm.trans h
      -- `k` and `k + 1` are counted from the same side of the sequence
      have hend : endPosition [] items.length (some (k + 1)) = p + 1 := by
        change (fromEnd items.length (k + 1)).toNat = p + 1
        rw [fromEnd_succ hne, hp, Int.toNat_natCast_add_one]
      rw [runFrom_slice_plain hk (.number hy), hend, hp, Int.toNat_natCast,
        drop_take_of_getElem? hitem]
  · have hrun : (answerAt "nth" items x).runFrom c = (.error .indexOutOfBounds, c) := by
      rw [hnth, nth_of_not_inRange hrange]
    have hfails : ¬∃ item next, (answerAt "nth" items x).runFrom c = (.ok item, next) := by
      rintro ⟨item, next, h⟩
      cases hrun.symm.trans h
    refine ⟨iff_of_false hfails hrange, ?_, ?_⟩
    · exact fun item next h => absurd ⟨item, next, h⟩ hfails
    · exact fun item next h => absurd ⟨item, next, h⟩ hfails

/-- Of an integer `k`: the slices up to `k` and from `k` on are the two parts of a sequence; `limit`
is the first of them, or refuses a `k` below zero; and `nth` picks the item at `k`, though from the
end of a stream the last item only. (The end `k + 1` is any number that is this integer. No
number is `2^53 + 1`, the end that is missing for an item with `2^53` items before it.) -/
theorem indexing_agrees (hk : x.IsInteger k) (items : List Value) (c : Context) :
    (∃ front back,
      (answerSlice items (.int 0) [.number x] none).runFrom c = (.ok (.array front), c) ∧
        (answerSlice items x [] none).runFrom c = (.ok (.array back), c) ∧
        front ++ back = items) ∧
      (0 ≤ k → (answerAt "limit" items x).runFrom c =
        (answerSlice items (.int 0) [.number x] none).runFrom c) ∧
      (k < 0 → ∃ e, (answerAt "limit" items x).runFrom c = (.error e, c) ∧ e.category = .range) ∧
      (c.type.isStream = false → PicksItem items x k c) ∧
      (c.type.isStream = true → ∀ name live, c.binding.table = some name →
        c.state.store.rows? name = some live →
        (-1 ≤ k → PicksItem items x k c) ∧
          (k < -1 → ∃ e, (answerAt "nth" items x).runFrom c = (.error e, c) ∧
            e.category = .range)) := by
  have hzero : (Number.int 0).IsInteger 0 := Number.isInteger_int (by decide)
  have hfront := runFrom_slice_plain hzero (.number hk) items c
  have hback := runFrom_slice_plain hk .missing items c
  have hlimit := runFrom_limit hk items c
  refine ⟨⟨_, _, hfront, hback, ?_⟩, ?_, ?_, ?_, ?_⟩
  · -- the first part begins at the start of the sequence and the second ends at its end
    have hstart : (fromEnd items.length 0).toNat = 0 := rfl
    have hend : endPosition [] items.length none = items.length := rfl
    rw [hstart, hend, List.drop_zero, List.take_length]
    exact List.take_append_drop _ items
  · intro hpos
    have hnat : fromEnd items.length k = k := if_neg (by omega)
    have hend : endPosition [] items.length (some k) = k.toNat := congrArg Int.toNat hnat
    rw [hlimit, if_neg (by omega), hfront, hend]
    rfl
  · intro hneg
    rw [hlimit, if_pos hneg]
    exact ⟨_, rfl, rfl⟩
  · intro hstream
    refine picksItem hk ?_ fun h => ?_
    · rw [hstream, Bool.and_false]
    · cases hstream.symm.trans h
  · intro hstream name live hname hlive
    have hrows : c.rows = .ok live := Context.rows_eq_ok.mpr ⟨name, hname, hlive⟩
    refine ⟨fun hlow => ?_, fun hlow => ?_⟩
    · refine picksItem hk ?_ fun _ => ⟨live, hrows⟩
      rw [decide_eq_false (by omega), Bool.false_and]
    · rw [runFrom_nth hk, hstream, decide_eq_true hlow, Bool.true_and, if_pos rfl]
      exact ⟨_, rfl, rfl⟩

/-- The last but one of three items: `nth` picks it from an array, and a slice takes it alone. -/
theorem indexing_agrees_second :
    let items : List Value := [.string "a", .string "b", .string "c"]
    let c : Context := ⟨.datum, {}, ⟨⟨[]⟩, ⟨fun _ _ => ""⟩, 0⟩⟩
    (∃ next, (answerAt "nth" items (.int (-2))).runFrom c = (.ok (.string "b"), next)) ∧
      (answerSlice items (.int (-2)) [.number (.int (-1))] none).runFrom c =
        (.ok (.array [.string "b"]), c) ∧
      ∃ e, (answerAt "limit" items (.int (-2))).runFrom c = (.error e, c) ∧ e.category = .range := by
  intro items c
  have hk : (Number.int (-2)).IsInteger (-2) := Number.isInteger_int (by decide)
  have hnext : (Number.int (-1)).IsInteger (-2 + 1) := Number.isInteger_int (by decide)
  obtain ⟨-, -, hlimit, hpicks, -⟩ := indexing_agrees hk items c
  have hitem := hpicks rfl
  obtain ⟨item, next, hrun⟩ := hitem.succeeds_iff.mpr (by decide)
  obtain rfl : .string "b" = item := Option.some.inj (hitem.item_eq item next hrun)
  exact ⟨⟨next, hrun⟩, hitem.slice_eq _ next hrun (by decide) _ hnext, hlimit (by decide)⟩

end Sequence

end TableQuery
