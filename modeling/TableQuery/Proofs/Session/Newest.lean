import Mathlib.Data.List.Destutter
import Mathlib.Data.List.DropRight
import TableQuery.Proofs.Session.Fold

/-!
What a history holds. It looks for repetitions at its last command only, and it forgets old commands
after each new one; still it holds the last commands of the whole list without blanks and without
repetitions of neighbours (`History.foldl_add_eq`).
-/

namespace TableQuery.History

section

variable {α : Type} [DecidableEq α]

/-- A further item behind others is left out if it repeats the last one kept. -/
theorem destutter'_concat (items : List α) (item : α) : ∀ a : α,
    (items ++ [item]).destutter' (· ≠ ·) a =
      if (items.destutter' (· ≠ ·) a).getLast? = some item then items.destutter' (· ≠ ·) a
      else items.destutter' (· ≠ ·) a ++ [item] := by
  induction items with
  | nil =>
    intro a
    by_cases h : a = item
    · simp [h]
    · simp [h]
  | cons b rest ih =>
    intro a
    -- the item kept last is the next one if it differs, and otherwise still the same
    by_cases h : a ≠ b
    · rw [List.cons_append, List.destutter'_cons_pos _ h, List.destutter'_cons_pos _ h, ih b,
        List.getLast?_cons_of_ne_nil (List.destutter'_ne_nil rest _)]
      split <;> rfl
    · rw [List.cons_append, List.destutter'_cons_neg _ h, List.destutter'_cons_neg _ h, ih a]

end

theorem destutter_concat (commands : List String) (command : String) :
    (commands ++ [command]).destutter (· ≠ ·) = keep (commands.destutter (· ≠ ·)) command := by
  unfold keep
  cases commands with
  | nil => simp
  | cons first rest =>
    rw [List.cons_append, List.destutter_cons', List.destutter_cons', destutter'_concat]

/-- To keep commands one by one is to leave out all repetitions of neighbours. -/
theorem foldl_keep_eq_destutter (commands : List String) :
    commands.foldl keep [] = commands.destutter (· ≠ ·) := by
  induction commands using List.reverseRecOn with
  | nil => rfl
  | append_singleton commands command ih =>
    rw [List.foldl_append, ih, destutter_concat]
    rfl

/-- A history without room for commands holds none, so it notices no repetition either. -/
theorem foldl_add_zero (lines : List String) :
    lines.foldl (fun h line => h.add line) (empty 0) = empty 0 := by
  induction lines with
  | nil => rfl
  | cons line rest ih =>
    have hline : (empty 0).add line = empty 0 := by
      unfold add
      dsimp only
      split
      · rfl
      · simp [empty, newest]
    rw [List.foldl_cons, hline, ih]

/-- After any lines a new history holds the last commands, as many as it has room for, of the list
that has all lines trimmed, without blank ones and without repetitions of neighbours. -/
theorem foldl_add_eq (size : Nat) (lines : List String) :
    lines.foldl (fun h line => h.add line) (empty size) =
      ⟨size, (((lines.map Text.trim).filter (· ≠ "")).destutter (· ≠ ·)).rtake size⟩ := by
  -- the invariant compares a command with the last one held, so it needs room for one
  rcases Nat.eq_zero_or_pos size with rfl | hsize
  · rw [foldl_add_zero, List.rtake_zero, empty]
  · have hholds := (holds_empty size).foldl_add hsize lines
    have hnone : newest size [] = [] := List.drop_nil
    rw [hnone, foldl_keep_eq_destutter] at hholds
    exact congrArg₂ History.mk hholds.maxSize_eq hholds.commands_eq

example : ([" a", "a ", "", "b", "a", " ", "a"].foldl (fun h line => h.add line) (empty 2)).commands =
    ["b", "a"] := by
  decide +kernel

end TableQuery.History
