import TableQuery.Proofs.Value.Restated

namespace TableQuery

namespace Fields

/-- New names come behind those that were there, in their own order. -/
theorem keys_merge {new : Fields} (hnew : (keys new).Nodup) (old : Fields) :
    keys (merge old new) = keys old ++ (keys new).filter (· ∉ keys old) := by
  induction new generalizing old with
  | nil => simp [merge, keys]
  | cons pair rest ih =>
    obtain ⟨name, v⟩ := pair
    simp only [keys, List.map_cons, List.nodup_cons] at hnew
    rw [merge, ih hnew.2, keys_set]
    change _ = keys old ++ (name :: keys rest).filter (· ∉ keys old)
    by_cases hname : name ∈ keys old
    · rw [if_pos hname, List.filter_cons_of_neg (by simpa using hname)]
    · rw [if_neg hname, List.filter_cons_of_pos (by simpa using hname), List.append_assoc,
        List.singleton_append]
      -- the name that was just set does not come again
      have hrest : (keys rest).filter (· ∉ keys old ++ [name]) =
          (keys rest).filter (· ∉ keys old) := by
        apply List.filter_congr
        intro other hother
        have hne : other ≠ name := fun heq => hnew.1 (heq ▸ hother)
        simp [hne]
      rw [hrest]

theorem get?_eq_none {name : String} {fields : Fields} (h : name ∉ keys fields) :
    get? name fields = none := by
  rwa [← Option.not_isSome_iff_eq_none, get?_isSome_iff]

/-- Fields of different names are known by their names, in order, and by what is found under
each. -/
theorem eq_of_get? {xs ys : Fields} (hkeys : keys xs = keys ys) (hnodup : (keys xs).Nodup)
    (hget : ∀ name, get? name xs = get? name ys) : xs = ys := by
  induction xs generalizing ys with
  | nil => exact (List.map_eq_nil_iff.mp hkeys.symm).symm
  | cons pair rest ih =>
    obtain ⟨name, v⟩ := pair
    cases ys with
    | nil => cases hkeys
    | cons pair' rest' =>
      obtain ⟨name', v'⟩ := pair'
      simp only [keys, List.map_cons, List.cons.injEq, List.nodup_cons] at hkeys hnodup
      obtain ⟨rfl, hkeys⟩ := hkeys
      have hfirst := hget name
      rw [get?_cons, get?_cons, if_pos rfl, if_pos rfl] at hfirst
      obtain rfl := Option.some.inj hfirst
      have hrest : rest = rest' := by
        apply ih hkeys hnodup.2
        intro other
        have hother := hget other
        rw [get?_cons, get?_cons] at hother
        split at hother
        · next heq =>
          have hnew : name ∉ keys rest' := by
            rw [keys, ← hkeys]
            exact hnodup.1
          rw [heq, get?_eq_none hnodup.1, get?_eq_none hnew]
        · exact hother
      rw [hrest]

end Fields

namespace Value

/-- What the deep merge of a value into another one gives. Two objects give the names of the first
and behind them the new names of the second, none of them twice; a name that only one of them has
keeps its value there, and a common name gets the merge of its two values. In all other cases the
second value takes the place of the first. -/
inductive MergesTo : Value → Value → Value → Prop
  | fields {old new merged : Fields}
      (keys_eq : Fields.keys merged =
        Fields.keys old ++ (Fields.keys new).filter (· ∉ Fields.keys old))
      (nodup : (Fields.keys merged).Nodup)
      (old_only : ∀ name ∈ Fields.keys old, name ∉ Fields.keys new →
        Fields.get? name merged = Fields.get? name old)
      (new_only : ∀ name ∈ Fields.keys new, name ∉ Fields.keys old →
        Fields.get? name merged = Fields.get? name new)
      (common : ∀ name x y z, Fields.get? name old = some x → Fields.get? name new = some y →
        Fields.get? name merged = some z → MergesTo x y z) :
      MergesTo (.object old) (.object new) (.object merged)
  | replaced {old new : Value} (h : old.isObject = false ∨ new.isObject = false) :
      MergesTo old new new

variable {old new merged : Value} {xs ys : Fields}

theorem merge_object (xs ys : Fields) :
    (object xs).merge (object ys) = object (Fields.merge xs ys) := by
  rw [merge, Fields.mergeValue]

theorem merge_of_not_object (h : old.isObject = false ∨ new.isObject = false) :
    old.merge new = new := by
  rw [merge]
  rcases isObject_cases new with ⟨incoming, rfl⟩ | hnew
  · rcases h with hold | hnew
    · exact mergeValue_object_of_not_object hold
    · cases hnew
  · exact mergeValue_of_not_object _ hnew

/-- The induction is on the value that is merged in; what is merged under a common name is one of
its fields. -/
theorem mergesTo_merge (hold : old.Distinct) (hnew : new.Distinct) :
    MergesTo old new (old.merge new) := by
  induction new using Value.induction generalizing old with
  | object ys ih =>
    rcases isObject_cases old with ⟨xs, rfl⟩ | hother
    · obtain ⟨hxs, -⟩ := distinctKeys_object.mp hold
      obtain ⟨hys, -⟩ := distinctKeys_object.mp hnew
      have hget (name : String) := Fields.get?_merge name xs hys
      rw [merge_object]
      refine .fields (Fields.keys_merge hys xs) (Fields.nodup_merge hxs ys) ?_ ?_ ?_
      · intro name _ hname
        rw [hget, Fields.get?_eq_none hname]
      · intro name hname hname'
        obtain ⟨y, hy⟩ := Fields.exists_get? hname
        rw [hget, hy, Fields.get?_eq_none hname']
        exact congrArg some (mergeValue_none y)
      · intro name x y z hx hy hz
        have hmerged : x.merge y = z := by
          rw [hget, hx, hy] at hz
          exact Option.some.inj hz
        rw [← hmerged]
        exact ih (name, y) (Fields.mem_of_get? hy) (hereditary_distinct.get? hold hx)
          (hereditary_distinct.get? hnew hy)
    · rw [merge_of_not_object (.inl hother)]
      exact .replaced (.inl hother)
  | _ =>
    rw [merge_of_not_object (.inr rfl)]
    exact .replaced (.inr rfl)

/-- By induction on what a merge gives: names and values leave no choice. -/
theorem MergesTo.merge_eq (h : MergesTo old new merged) (hold : old.Distinct)
    (hnew : new.Distinct) : old.merge new = merged := by
  induction h with
  | @fields xs ys zs keys_eq nodup old_only new_only common ih =>
    obtain ⟨hys, -⟩ := distinctKeys_object.mp hnew
    rw [merge_object]
    congr 1
    have hkeys : Fields.keys (Fields.merge xs ys) = Fields.keys zs :=
      (Fields.keys_merge hys xs).trans keys_eq.symm
    refine Fields.eq_of_get? hkeys (hkeys ▸ nodup) fun name => ?_
    rw [Fields.get?_merge name xs hys]
    -- a name of both objects, of one of them, or of neither
    by_cases hname : name ∈ Fields.keys ys
    · obtain ⟨y, hy⟩ := Fields.exists_get? hname
      rw [hy]
      by_cases hname' : name ∈ Fields.keys xs
      · obtain ⟨x, hx⟩ := Fields.exists_get? hname'
        have hmem : name ∈ Fields.keys zs := keys_eq ▸ List.mem_append_left _ hname'
        obtain ⟨z, hz⟩ := Fields.exists_get? hmem
        have hmerged := ih name x y z hx hy hz (hereditary_distinct.get? hold hx)
          (hereditary_distinct.get? hnew hy)
        rw [hx, hz, ← hmerged, merge]
      · rw [Fields.get?_eq_none hname', new_only name hname hname', hy]
        exact congrArg some (mergeValue_none y)
    · rw [Fields.get?_eq_none hname]
      by_cases hname' : name ∈ Fields.keys xs
      · exact (old_only name hname' hname).symm
      · have hmem : name ∉ Fields.keys zs := by
          rw [keys_eq, List.mem_append, List.mem_filter]
          exact fun h => h.elim hname' fun h => hname h.1
        rw [Fields.get?_eq_none hname', Fields.get?_eq_none hmem]
  | replaced h => exact merge_of_not_object h

/-- The merge of two objects is the one value that has their fields in order, with common names
merged in their turn. Merging the second object in again leaves it as it is. -/
theorem merge_exact (hxs : (object xs).Distinct) (hys : (object ys).Distinct) :
    (∀ merged, MergesTo (object xs) (object ys) merged ↔
        (object xs).merge (object ys) = merged) ∧
      ((object xs).merge (object ys)).merge (object ys) = (object xs).merge (object ys) := by
  refine ⟨fun merged => ⟨fun h => h.merge_eq hxs hys, ?_⟩, ?_⟩
  · rintro rfl
    exact mergesTo_merge hxs hys
  · exact mergeValue_again (fun old hold => Option.mem_some_iff.mp hold ▸ hxs) hys

/-- Two objects under a common name, an object in the place of a string and the other way round, a
name that stays and one that is new. -/
theorem merge_exact_nested :
    let xs : Fields := [("a", .object [("p", .bool true), ("q", .null)]), ("b", .string "x"),
      ("c", .object [("p", .null)]), ("d", .null)]
    let ys : Fields := [("e", .array []), ("c", .string "y"), ("b", .object [("p", .null)]),
      ("a", .object [("r", .null), ("p", .bool false)])]
    let zs : Fields := [("a", .object [("p", .bool false), ("q", .null), ("r", .null)]),
      ("b", .object [("p", .null)]), ("c", .string "y"), ("d", .null), ("e", .array [])]
    ((object xs).Distinct ∧ (object ys).Distinct) ∧ MergesTo (object xs) (object ys) (object zs) ∧
      (object zs).merge (object ys) = object zs := by
  intro xs ys zs
  have hxs : (object xs).Distinct := by decide
  have hys : (object ys).Distinct := by decide
  have hmerge : (object xs).merge (object ys) = object zs := by
    simp [merge, xs, ys, zs, Fields.merge, Fields.mergeValue, Fields.get?, Fields.set, Assoc.set,
      List.lookup_cons]
  obtain ⟨hexact, hagain⟩ := merge_exact hxs hys
  rw [hmerge] at hagain
  exact ⟨⟨hxs, hys⟩, (hexact _).mpr hmerge, hagain⟩

end Value

end TableQuery
