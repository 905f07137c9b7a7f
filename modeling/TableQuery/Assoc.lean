namespace TableQuery.Assoc

variable {β : Type}

/-- Sets the value of a key: a known key keeps its place, a new one comes last. -/
def set (key : String) (value : β) : List (String × β) → List (String × β)
  | [] => [(key, value)]
  | (k, old) :: rest => if k = key then (k, value) :: rest else (k, old) :: set key value rest

theorem lookup_cons (key k : String) (value : β) (rest : List (String × β)) :
    ((k, value) :: rest).lookup key = if key = k then some value else rest.lookup key := by
  by_cases h : key = k
  · simp [h]
  · simp [List.lookup_cons, beq_false_of_ne h, h]

theorem lookup_set (key other : String) (value : β) (pairs : List (String × β)) :
    (set key value pairs).lookup other =
      if other = key then some value else pairs.lookup other := by
  induction pairs with
  | nil => simp [set, lookup_cons]
  | cons pair rest ih =>
    obtain ⟨k, old⟩ := pair
    by_cases hk : k = key
    · subst hk
      by_cases ho : other = k <;> simp [set, lookup_cons, ho]
    · by_cases ho : other = k
      · subst ho
        simp [set, hk]
      · simp [set, lookup_cons, hk, ho, ih]

/-- A key that is set to the value that it has. -/
theorem set_self {key : String} {value : β} {pairs : List (String × β)}
    (h : pairs.lookup key = some value) : set key value pairs = pairs := by
  induction pairs with
  | nil => cases h
  | cons pair rest ih =>
    obtain ⟨k, old⟩ := pair
    rw [lookup_cons] at h
    by_cases hk : key = k
    · rw [if_pos hk] at h
      cases h
      rw [set, if_pos hk.symm]
    · rw [if_neg hk] at h
      rw [set, if_neg (fun heq => hk heq.symm), ih h]

theorem keys_set (key : String) (value : β) (pairs : List (String × β)) :
    (set key value pairs).map Prod.fst =
      if key ∈ pairs.map Prod.fst then pairs.map Prod.fst else pairs.map Prod.fst ++ [key] := by
  induction pairs with
  | nil => rfl
  | cons pair rest ih =>
    obtain ⟨k, old⟩ := pair
    by_cases hk : k = key
    · simp [set, hk]
    · have hn : key ≠ k := fun h => hk h.symm
      simp only [set, hk, if_false, List.map_cons, ih, List.mem_cons, hn, false_or]
      split <;> rfl

/-- A new key comes last. -/
theorem set_of_not_mem {key : String} (value : β) {pairs : List (String × β)}
    (h : key ∉ pairs.map Prod.fst) : set key value pairs = pairs ++ [(key, value)] := by
  induction pairs with
  | nil => rfl
  | cons pair rest ih =>
    obtain ⟨k, old⟩ := pair
    rw [List.map_cons, List.mem_cons, not_or] at h
    rw [set, if_neg (Ne.symm h.1), ih h.2, List.cons_append]

/-- Pairs with new and different keys are taken over as they stand. -/
theorem foldl_set_of_nodup (new : List (String × β)) : ∀ {known : List (String × β)},
    ((known ++ new).map Prod.fst).Nodup →
      new.foldl (fun pairs pair => set pair.1 pair.2 pairs) known = known ++ new := by
  induction new with
  | nil => exact fun _ => (List.append_nil _).symm
  | cons pair rest ih =>
    intro known hnodup
    have hnew : pair.1 ∉ known.map Prod.fst := by
      intro hmem
      rw [List.map_append, List.nodup_append] at hnodup
      exact hnodup.2.2 _ hmem _ List.mem_cons_self rfl
    have hassoc : known ++ pair :: rest = known ++ [pair] ++ rest := by simp
    rw [hassoc] at hnodup ⊢
    rw [List.foldl_cons, set_of_not_mem pair.2 hnew, ih hnodup]

end TableQuery.Assoc
