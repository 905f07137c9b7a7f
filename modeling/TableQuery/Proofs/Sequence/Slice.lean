import TableQuery.Action.Catalogue
import TableQuery.Proofs.Binary64.Integers

/-!
Slices of sequences. The options of a slice say whether its start is left out and whether its end
is taken in; `Sequence.between` are the items that are asked for. A bound is moved by one before a
negative index is counted from the end, so an open start at `-1` is read as `0`, and so is a closed
end at `-1`. `Sequence.slice_eq_between_iff` says when the items that are asked for are returned all
the same.
-/

namespace TableQuery

namespace Sequence

def optionText (name : String) (options : Fields) : Option String :=
  match Fields.get? name options with
  | some (.string s) => some s
  | _ => none

section

variable (options : Fields) (length : Nat)

def LeftOpen : Prop := optionText "leftBound" options = some "open"

def RightClosed : Prop := optionText "rightBound" options = some "closed"

instance : Decidable (LeftOpen options) :=
  inferInstanceAs (Decidable (optionText "leftBound" options = some "open"))

instance : Decidable (RightClosed options) :=
  inferInstanceAs (Decidable (optionText "rightBound" options = some "closed"))

def After (start : Int) (i : Nat) : Prop :=
  if LeftOpen options then fromEnd length start < i else fromEnd length start ≤ i

def Before (stop : Option Int) (i : Nat) : Prop :=
  match stop with
  | none => True
  | some e => if RightClosed options then i ≤ fromEnd length e else i < fromEnd length e

instance (start : Int) (i : Nat) : Decidable (After options length start i) :=
  inferInstanceAs (Decidable
    (if LeftOpen options then fromEnd length start < i else fromEnd length start ≤ i))

instance (stop : Option Int) (i : Nat) : Decidable (Before options length stop i) :=
  match stop with
  | none => .isTrue trivial
  | some e => inferInstanceAs (Decidable
    (if RightClosed options then i ≤ fromEnd length e else i < fromEnd length e))

def firstPosition (start : Int) : Nat :=
  (if LeftOpen options then fromEnd length start + 1 else fromEnd length start).toNat

def endPosition (stop : Option Int) : Nat :=
  match stop with
  | none => length
  | some e => (if RightClosed options then fromEnd length e + 1 else fromEnd length e).toNat

end

def between (options : Fields) (start : Int) (stop : Option Int) (items : List Value) :
    List Value :=
  (items.zipIdx.filter fun item =>
    decide (After options items.length start item.2 ∧
      Before options items.length stop item.2)).map Prod.fst

variable {options : Fields} {start : Int} {stop : Option Int} {items : List Value} {length i : Nat}

theorem leftOpen_ofFields : (SliceBounds.ofFields options).leftOpen = true ↔ LeftOpen options := by
  unfold LeftOpen optionText SliceBounds.ofFields
  dsimp only
  rcases Fields.get? "leftBound" options with _ | v
  · simp
  · cases v <;> simp

theorem rightClosed_ofFields :
    (SliceBounds.ofFields options).rightClosed = true ↔ RightClosed options := by
  unfold RightClosed optionText SliceBounds.ofFields
  dsimp only
  rcases Fields.get? "rightBound" options with _ | v
  · simp
  · cases v <;> simp

theorem after_iff : After options length start i ↔ firstPosition options length start ≤ i := by
  unfold After firstPosition
  split <;> omega

theorem before_iff (hi : i < length) :
    Before options length stop i ↔ i < endPosition options length stop := by
  cases stop with
  | none => exact iff_of_true trivial hi
  | some e =>
    unfold Before endPosition
    dsimp only
    split <;> omega

/-- The items of a range of positions; the first item has position `n`. -/
theorem filter_zipIdx (first stop : Nat) (items : List Value) (n : Nat) :
    ((items.zipIdx n).filter fun item => decide (first ≤ item.2 ∧ item.2 < stop)).map Prod.fst =
      (items.take (stop - n)).drop (first - n) := by
  induction items generalizing n with
  | nil => simp
  | cons item rest ih =>
    rw [List.zipIdx_cons, List.filter_cons]
    cases hstop : stop - n with
    | zero =>
      -- the range ends before this item
      have hrest : stop - (n + 1) = 0 := by omega
      have hout : ¬(first ≤ n ∧ n < stop) := by omega
      rw [if_neg (by simpa using hout), ih, hrest, List.take_zero, List.take_zero, List.drop_nil,
        List.drop_nil]
    | succ k =>
      have hrest : stop - (n + 1) = k := by omega
      cases hfirst : first - n with
      | zero =>
        have hnext : first - (n + 1) = 0 := by omega
        have hin : first ≤ n ∧ n < stop := by omega
        rw [if_pos (by simpa using hin), List.map_cons, ih, hrest, hnext]
        rfl
      | succ j =>
        -- the range begins behind this item
        have hnext : first - (n + 1) = j := by omega
        have hout : ¬(first ≤ n ∧ n < stop) := by omega
        rw [if_neg (by simpa using hout), ih, hrest, hnext]
        rfl

theorem between_eq : between options start stop items =
    (items.take (endPosition options items.length stop)).drop
      (firstPosition options items.length start) := by
  have hrange := filter_zipIdx (firstPosition options items.length start)
    (endPosition options items.length stop) items 0
  rw [Nat.sub_zero, Nat.sub_zero] at hrange
  rw [← hrange, between]
  congr 1
  apply List.filter_congr
  intro item hitem
  have hlt : item.2 < items.length := List.snd_lt_of_mem_zipIdx hitem
  exact decide_eq_decide.mpr (and_congr after_iff (before_iff hlt))

def OpenLast (options : Fields) (start : Int) : Prop := LeftOpen options ∧ start = -1

def ClosedLast (options : Fields) (stop : Option Int) : Prop :=
  RightClosed options ∧ stop = some (-1)

theorem next64_eq {n : Int} (h : n.natAbs ≤ 2 ^ 53) : next64 n = n + 1 :=
  Int.bmod_eq_of_le (by omega) (by omega)

theorem fromEnd_succ {index : Int} (h : index ≠ -1) :
    fromEnd length (index + 1) = fromEnd length index + 1 := by
  unfold fromEnd
  split <;> split <;> omega

theorem take_min_length (items : List Value) (k : Nat) :
    items.take (min items.length k) = items.take k := by
  rw [List.take_eq_take_iff]
  omega

theorem drop_take_min_length (items : List Value) (k m : Nat) :
    (items.take k).drop (min items.length m) = (items.take k).drop m := by
  rcases Nat.le_total items.length m with hle | hle
  · rw [Nat.min_eq_left hle, List.drop_eq_nil_iff.mpr (List.length_take_le' _ _),
      List.drop_eq_nil_iff.mpr (Nat.le_trans (List.length_take_le' _ _) hle)]
  · rw [Nat.min_eq_right hle]

theorem first_eq (hrange : start.natAbs ≤ 2 ^ 53) (h : ¬OpenLast options start) (length : Nat) :
    (SliceBounds.ofFields options).first length start =
      min length (firstPosition options length start) := by
  unfold SliceBounds.first clamp firstPosition
  by_cases hopen : LeftOpen options
  · have hne : start ≠ -1 := fun hlast => h ⟨hopen, hlast⟩
    rw [if_pos (leftOpen_ofFields.mpr hopen), if_pos hopen, next64_eq hrange, fromEnd_succ hne]
  · rw [if_neg (mt leftOpen_ofFields.mp hopen), if_neg hopen]

theorem first_of_openLast (h : OpenLast options start) (length : Nat) :
    (SliceBounds.ofFields options).first length start = 0 ∧
      firstPosition options length start = length := by
  obtain ⟨hopen, rfl⟩ := h
  unfold SliceBounds.first clamp firstPosition fromEnd
  rw [if_pos (leftOpen_ofFields.mpr hopen), if_pos hopen]
  refine ⟨Nat.min_zero length, ?_⟩
  rw [if_pos (by decide)]
  omega

theorem last_eq (hrange : ∀ e, stop = some e → e.natAbs ≤ 2 ^ 53) (h : ¬ClosedLast options stop)
    (length : Nat) : (SliceBounds.ofFields options).last length stop =
      min length (endPosition options length stop) := by
  cases stop with
  | none => exact (Nat.min_self length).symm
  | some e =>
    unfold SliceBounds.last clamp endPosition
    dsimp only
    by_cases hclosed : RightClosed options
    · have hne : e ≠ -1 := fun hlast => h ⟨hclosed, by rw [hlast]⟩
      rw [if_pos (rightClosed_ofFields.mpr hclosed), if_pos hclosed, next64_eq (hrange e rfl),
        fromEnd_succ hne]
    · rw [if_neg (mt rightClosed_ofFields.mp hclosed), if_neg hclosed]

theorem last_of_closedLast (h : ClosedLast options stop) (length : Nat) :
    (SliceBounds.ofFields options).last length stop = 0 ∧
      endPosition options length stop = length := by
  obtain ⟨hclosed, rfl⟩ := h
  unfold SliceBounds.last clamp endPosition fromEnd
  dsimp only
  rw [if_pos (rightClosed_ofFields.mpr hclosed), if_pos hclosed]
  refine ⟨Nat.min_zero length, ?_⟩
  rw [if_pos (by decide)]
  omega

theorem take_eq_nil_iff_before : items.take (endPosition options items.length stop) = [] ↔
    ∀ i < items.length, ¬Before options items.length stop i := by
  rw [List.take_eq_nil_iff]
  constructor
  · intro h i hi hbefore
    rw [before_iff hi] at hbefore
    rcases h with hzero | rfl
    · omega
    · exact Nat.not_lt_zero i hi
  · intro h
    by_cases hnil : items = []
    · exact .inr hnil
    · left
      have hpos : 0 < items.length := List.length_pos_iff.mpr hnil
      have hfirst := h 0 hpos
      rw [before_iff hpos] at hfirst
      exact Nat.eq_zero_of_not_pos hfirst

theorem drop_eq_nil_iff_after : items.drop (firstPosition options items.length start) = [] ↔
    ∀ i < items.length, ¬After options items.length start i := by
  rw [List.drop_eq_nil_iff]
  constructor
  · intro h i hi hafter
    rw [after_iff] at hafter
    omega
  · intro h
    apply Nat.not_lt.mp
    intro hlt
    exact h _ hlt (after_iff.mpr (Nat.le_refl _))

/-- A slice takes what it is asked for exactly if its start is not read as `0` where items come
before its end, and its end is not read as `0` where items come after its start. Both together do
no harm: then nothing is asked for and nothing is taken. -/
theorem sliceBetween_eq_between_iff (hstart : start.natAbs ≤ 2 ^ 53)
    (hstop : ∀ e, stop = some e → e.natAbs ≤ 2 ^ 53) :
    sliceBetween (SliceBounds.ofFields options) start stop items =
        between options start stop items ↔
      (OpenLast options start → ClosedLast options stop ∨
          ∀ i < items.length, ¬Before options items.length stop i) ∧
        (ClosedLast options stop → OpenLast options start ∨
          ∀ i < items.length, ¬After options items.length start i) := by
  rw [sliceBetween, between_eq]
  by_cases hopen : OpenLast options start <;> by_cases hclosed : ClosedLast options stop
  · obtain ⟨hzero, hfirst⟩ := first_of_openLast hopen items.length
    obtain ⟨hnone, hend⟩ := last_of_closedLast hclosed items.length
    rw [hzero, hfirst, hnone, hend, List.take_length, List.drop_length]
    exact iff_of_true rfl ⟨fun _ => .inl hclosed, fun _ => .inl hopen⟩
  · obtain ⟨hzero, hfirst⟩ := first_of_openLast hopen items.length
    rw [hzero, hfirst, last_eq hstop hclosed, take_min_length, List.drop_zero,
      List.drop_eq_nil_iff.mpr (List.length_take_le' _ _), take_eq_nil_iff_before]
    simp [hopen, hclosed]
  · obtain ⟨hnone, hend⟩ := last_of_closedLast hclosed items.length
    rw [first_eq hstart hopen, hnone, hend, List.take_zero, List.drop_nil, List.take_length,
      eq_comm, drop_eq_nil_iff_after]
    simp [hopen, hclosed]
  · rw [first_eq hstart hopen, last_eq hstop hclosed, take_min_length, drop_take_min_length]
    simp [hopen, hclosed]

inductive Ends : List Value → Option Int → Prop where
  | missing : Ends [] none
  | null : Ends [.null] none
  | number {y : Number} {e : Int} (h : y.IsInteger e) : Ends [.number y] (some e)

theorem Ends.natAbs_le {ends : List Value} (h : Ends ends stop) :
    ∀ e, stop = some e → e.natAbs ≤ 2 ^ 53 := by
  rintro e rfl
  cases h with
  | number hy => exact hy.natAbs_le

def answerSlice (items : List Value) (x : Number) (ends : List Value) (options : Option Fields) :
    Act Value :=
  Registry.builtin.invoke "slice" (.array items)
    ((.number x :: (ends ++ options.toList.map .object)).map .datum)

theorem runFrom_slice {x : Number} {ends : List Value} (hstart : x.IsInteger start)
    (hends : Ends ends stop) (options : Option Fields) (items : List Value) (c : Context) :
    (answerSlice items x ends options).runFrom c =
      (.ok (.array (sliceBetween (SliceBounds.ofFields (options.getD [])) start stop items)),
        c) := by
  rw [← hstart.toInt64_eq]
  cases hends with
  | missing => cases options <;> rfl
  | null => cases options <;> rfl
  | number h =>
    rw [← h.toInt64_eq]
    cases options <;> rfl

/-- A slice of an array succeeds, and its items are those that are asked for exactly if no bound of
`-1` that is moved by one is read as `0` to any effect. -/
theorem slice_eq_between_iff {x : Number} {ends : List Value} (hstart : x.IsInteger start)
    (hends : Ends ends stop) (options : Option Fields) (items : List Value) (c : Context) :
    ∃ kept, (answerSlice items x ends options).runFrom c = (.ok (.array kept), c) ∧
      (kept = between (options.getD []) start stop items ↔
        (OpenLast (options.getD []) start → ClosedLast (options.getD []) stop ∨
            ∀ i < items.length, ¬Before (options.getD []) items.length stop i) ∧
          (ClosedLast (options.getD []) stop → OpenLast (options.getD []) start ∨
            ∀ i < items.length, ¬After (options.getD []) items.length start i)) :=
  ⟨_, runFrom_slice hstart hends options items c,
    sliceBetween_eq_between_iff hstart.natAbs_le hends.natAbs_le⟩

/-- Both bounds count from the end, the start is left out and the end is taken in. -/
theorem slice_eq_between_iff_negative :
    let items : List Value := [.string "a", .string "b", .string "c", .string "d", .string "e"]
    let options : Fields := [("leftBound", .string "open"), ("rightBound", .string "closed")]
    let c : Context := ⟨.datum, {}, ⟨⟨[]⟩, ⟨fun _ _ => ""⟩, 0⟩⟩
    (answerSlice items (.int (-4)) [.number (.int (-2))] (some options)).runFrom c =
      (.ok (.array [.string "c", .string "d"]), c) := by
  intro items options c
  have hstart : (Number.int (-4)).IsInteger (-4) := Number.isInteger_int (by decide)
  have hstop : (Number.int (-2)).IsInteger (-2) := Number.isInteger_int (by decide)
  obtain ⟨kept, hrun, hkept⟩ :=
    slice_eq_between_iff hstart (.number hstop) (some options) items c
  rw [hrun, hkept.mpr ⟨fun h => ?_, fun h => ?_⟩]
  · rfl
  · cases h.2
  · cases h.2

/-- A closed end at the last item: the whole sequence is asked for and nothing is taken. An open
start at the last item: nothing is asked for and the whole sequence is taken. -/
theorem not_slice_between_last :
    let items : List Value := [.number (.int 1), .number (.int 2), .number (.int 3)]
    let closed : Fields := [("rightBound", .string "closed")]
    let left : Fields := [("leftBound", .string "open")]
    between closed 0 (some (-1)) items = items ∧ between left (-1) none items = [] ∧
      ∀ c : Context,
        (answerSlice items (.int 0) [.number (.int (-1))] (some closed)).runFrom c =
          (.ok (.array []), c) ∧
        (answerSlice items (.int (-1)) [] (some left)).runFrom c = (.ok (.array items), c) := by
  intro items closed left
  have hzero : (Number.int 0).IsInteger 0 := Number.isInteger_int (by decide)
  have hlast : (Number.int (-1)).IsInteger (-1) := Number.isInteger_int (by decide)
  refine ⟨rfl, rfl, fun c => ⟨?_, ?_⟩⟩
  · rw [runFrom_slice hzero (.number hlast)]
    rfl
  · rw [runFrom_slice hlast .missing]
    rfl

end Sequence

end TableQuery
