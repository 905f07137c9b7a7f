import TableQuery.Proofs.Value.Equality

/-!
What a merge leaves alone. A value that is merged into another one adds nothing exactly if it
restates it: every field of the second is there already and restated in its turn
(`Value.Compares.merge_iff`). This holds for values that are the same and for values that are
equal, so both are read off one induction. What a merge gives restates what was merged in, and so
merging a value a second time changes nothing (`Value.mergeValue_again`).
-/

namespace TableQuery.Value

inductive Restated (same : Value → Value → Prop) : Option Value → Value → Prop
  | object {existing incoming : Fields}
      (h : ∀ pair ∈ incoming, Restated same (Fields.get? pair.1 existing) pair.2) :
      Restated same (some (.object existing)) (.object incoming)
  | value {old new : Value} (hnew : new.isObject = false) (h : same old new) :
      Restated same (some old) new

variable {same : Value → Value → Prop} {old new : Value} {existing incoming : Fields}

theorem restated_object : Restated same (some (.object existing)) (.object incoming) ↔
    ∀ pair ∈ incoming, Restated same (Fields.get? pair.1 existing) pair.2 := by
  constructor
  · intro h
    cases h with
    | object h => exact h
    | value hnew _ => cases hnew
  · exact .object

theorem restated_value (hnew : new.isObject = false) :
    Restated same (some old) new ↔ same old new := by
  constructor
  · intro h
    cases h with
    | object _ => cases hnew
    | value _ h => exact h
  · exact .value hnew

theorem Restated.exists_old {found : Option Value} (h : Restated same found new) :
    ∃ old, found = some old ∧ Restated same (some old) new := by
  cases h with
  | object h => exact ⟨_, rfl, .object h⟩
  | value hnew h => exact ⟨_, rfl, .value hnew h⟩

theorem isObject_cases (v : Value) : (∃ fields, v = .object fields) ∨ v.isObject = false := by
  cases v with
  | object fields => exact .inl ⟨fields, rfl⟩
  | _ => exact .inr rfl

/-- Anything but an object is taken over as it stands. -/
theorem mergeValue_of_not_object (found : Option Value) (hnew : new.isObject = false) :
    Fields.mergeValue found new = new := by
  cases new with
  | object _ => cases hnew
  | _ => simp [Fields.mergeValue]

/-- So is an object that takes the place of anything else, or that is new. -/
theorem mergeValue_object_of_not_object (hold : old.isObject = false) :
    Fields.mergeValue (some old) (.object incoming) = .object incoming := by
  cases old with
  | object _ => cases hold
  | _ => simp [Fields.mergeValue]

@[simp] theorem mergeValue_none (v : Value) : Fields.mergeValue none v = v := by
  cases v <;> simp [Fields.mergeValue]

/-- What a relation between values has to satisfy so that it tells apart what a merge changed:
values of different kinds are told apart, and an object is related to what a merge makes of it
exactly if each field that is merged in was there and its value is related to the merged one. -/
structure Compares (same : Value → Value → Prop) : Prop where
  kind_eq : ∀ {a b}, same a b → a.kind = b.kind
  object_iff : ∀ {existing incoming : Fields}, (Value.object existing).Distinct →
    (Value.object incoming).Distinct →
    (same (.object existing) (.object (Fields.merge existing incoming)) ↔
      ∀ pair ∈ incoming, ∃ old, Fields.get? pair.1 existing = some old ∧
        same old (Fields.mergeValue (some old) pair.2))

/-- A merge leaves a value as it was, up to such a relation, exactly if it restates the value. The
induction is on the value that is merged in. -/
theorem Compares.merge_iff (hsame : Compares same) (hold : old.Distinct) (hnew : new.Distinct) :
    same old (Fields.mergeValue (some old) new) ↔ Restated same (some old) new := by
  induction new using Value.induction generalizing old with
  | object incoming ih =>
    rcases isObject_cases old with ⟨existing, rfl⟩ | hother
    · rw [Fields.mergeValue, hsame.object_iff hold hnew, restated_object]
      apply forall₂_congr
      intro pair hpair
      have hvalue := hereditary_distinct.member hnew hpair
      constructor
      · rintro ⟨old, hget, hmerged⟩
        rw [hget]
        exact (ih pair hpair (hereditary_distinct.get? hold hget) hvalue).mp hmerged
      · intro hrestated
        obtain ⟨old, hget, hrestated⟩ := hrestated.exists_old
        have hdistinct := hereditary_distinct.get? hold hget
        exact ⟨old, hget, (ih pair hpair hdistinct hvalue).mpr hrestated⟩
    -- an object in the place of anything else is of another kind
    · rw [mergeValue_object_of_not_object hother]
      constructor
      · intro h
        have hkind := hsame.kind_eq h
        cases old with
        | object _ => cases hother
        | _ => cases hkind
      · intro h
        cases h with
        | object _ => cases hother
        | value hobject _ => cases hobject
  | _ => rw [mergeValue_of_not_object _ rfl, restated_value rfl]

/-- Merging fields that are there with the values that they get leaves the fields as they are. -/
theorem merge_eq_self (h : ∀ pair ∈ incoming, ∃ old, Fields.get? pair.1 existing = some old ∧
    old = Fields.mergeValue (some old) pair.2) : Fields.merge existing incoming = existing := by
  induction incoming with
  | nil => rw [Fields.merge]
  | cons pair rest ih =>
    obtain ⟨old, hget, hmerged⟩ := h pair List.mem_cons_self
    have hset : Fields.set pair.1 old existing = existing := Assoc.set_self hget
    rw [Fields.merge, hget, ← hmerged, hset]
    exact ih fun p hp => h p (List.mem_cons_of_mem _ hp)

theorem compares_eq : Compares (· = ·) where
  kind_eq h := congrArg kind h
  object_iff {existing incoming} _ hincoming := by
    have hnames := (distinctKeys_object.mp hincoming).1
    constructor
    · intro h pair hpair
      have hsame : existing = Fields.merge existing incoming := Value.object.inj h
      -- the field has the merged value in the old object too
      have hmerge := Fields.get?_merge pair.1 existing hnames
      rw [Fields.get?_of_mem hnames hpair, ← hsame] at hmerge
      cases hget : Fields.get? pair.1 existing with
      | none =>
        rw [hget] at hmerge
        cases hmerge
      | some old =>
        rw [hget] at hmerge
        exact ⟨old, rfl, Option.some.inj hmerge⟩
    · intro h
      rw [merge_eq_self h]

/-- An object that equals what a merge makes of it had every field that was merged in. -/
theorem exists_of_equals_merge (hexisting : (object existing).Distinct)
    (hincoming : (object incoming).Distinct)
    (h : (object existing).equals (object (Fields.merge existing incoming)) = true) :
    ∀ pair ∈ incoming, ∃ old, Fields.get? pair.1 existing = some old ∧
      old.equals (Fields.mergeValue (some old) pair.2) = true := by
  intro pair hpair
  have hexistingNames := (distinctKeys_object.mp hexisting).1
  have hnames := (distinctKeys_object.mp hincoming).1
  obtain ⟨hlength, hfields⟩ := equals_object.mp h
  have hsub : Fields.keys existing ⊆ Fields.keys (Fields.merge existing incoming) := by
    intro name hname
    obtain ⟨old, hold⟩ := Fields.exists_get? hname
    obtain ⟨_, hfound, -⟩ := hfields _ (Fields.mem_of_get? hold)
    exact Fields.get?_isSome_iff.mp (by simp [hfound])
  have hfound := Fields.get?_merge pair.1 existing hnames
  rw [Fields.get?_of_mem hnames hpair] at hfound
  -- the merge has no more names than there were, so the field was there
  have hname : pair.1 ∈ Fields.keys existing := by
    apply keys_subset_of_length hexistingNames hlength hsub
    exact Fields.get?_isSome_iff.mp (by simp [hfound])
  obtain ⟨old, hold⟩ := Fields.exists_get? hname
  obtain ⟨new, hnew, hequal⟩ := hfields _ (Fields.mem_of_get? hold)
  rw [hfound, hold] at hnew
  rw [← Option.some.inj hnew] at hequal
  exact ⟨old, hold, hequal⟩

/-- Merging fields that are there with values equal to the merged ones gives an equal object. -/
theorem equals_merge_of_forall (hexisting : (object existing).Distinct)
    (hincoming : (object incoming).Distinct)
    (h : ∀ pair ∈ incoming, ∃ old, Fields.get? pair.1 existing = some old ∧
      old.equals (Fields.mergeValue (some old) pair.2) = true) :
    (object existing).equals (object (Fields.merge existing incoming)) = true := by
  have hexistingNames := (distinctKeys_object.mp hexisting).1
  have hnames := (distinctKeys_object.mp hincoming).1
  have hmerge (name : String) := Fields.get?_merge name existing hnames
  apply equals_object_of_get? hexistingNames (Fields.nodup_merge hexistingNames incoming)
  · intro name hname
    obtain ⟨value, hvalue⟩ := Fields.exists_get? hname
    rw [hmerge] at hvalue
    apply Fields.get?_isSome_iff.mp
    cases hget : Fields.get? name incoming with
    | none =>
      rw [hget] at hvalue
      simp [hvalue]
    | some v =>
      obtain ⟨old, hold, -⟩ := h _ (Fields.mem_of_get? hget)
      simp [hold]
  · intro name old hold
    rw [hmerge]
    cases hget : Fields.get? name incoming with
    | none =>
      exact ⟨old, hold, equals_refl (hereditary_distinct.get? hexisting hold)⟩
    | some v =>
      obtain ⟨old', hold', hequal⟩ := h _ (Fields.mem_of_get? hget)
      obtain rfl := Option.some.inj (hold.symm.trans hold')
      exact ⟨_, congrArg some (by rw [hold]), hequal⟩

theorem compares_equals : Compares fun a b => a.equals b = true where
  kind_eq := kind_eq_of_equals
  object_iff hexisting hincoming :=
    ⟨exists_of_equals_merge hexisting hincoming, equals_merge_of_forall hexisting hincoming⟩

/-- What a merge gives restates the value that was merged in. -/
theorem restated_mergeValue (found : Option Value) (hnew : new.Distinct) :
    Restated (· = ·) (some (Fields.mergeValue found new)) new := by
  induction new using Value.induction generalizing found with
  | object incoming ih =>
    have hnames := (distinctKeys_object.mp hnew).1
    -- a field that is merged in is found with its value merged into what was there before
    have hobject {fields : Fields} (before : Fields) (hfields : ∀ pair ∈ incoming,
        Fields.get? pair.1 fields =
          some (Fields.mergeValue (Fields.get? pair.1 before) pair.2)) :
        Restated (· = ·) (some (.object fields)) (.object incoming) := by
      apply Restated.object
      intro pair hpair
      rw [hfields pair hpair]
      exact ih pair hpair _ (hereditary_distinct.member hnew hpair)
    have hplain : Restated (· = ·) (some (.object incoming)) (.object incoming) := by
      apply hobject []
      intro pair hpair
      rw [Fields.get?_of_mem hnames hpair, Fields.get?, List.lookup_nil, mergeValue_none]
    rcases found with _ | old
    · rw [mergeValue_none]
      exact hplain
    rcases isObject_cases old with ⟨existing, rfl⟩ | hother
    · rw [Fields.mergeValue]
      apply hobject existing
      intro pair hpair
      rw [Fields.get?_merge pair.1 existing hnames, Fields.get?_of_mem hnames hpair]
    · rw [mergeValue_object_of_not_object hother]
      exact hplain
  | _ =>
    rw [mergeValue_of_not_object _ rfl]
    exact .value rfl rfl

/-- Merging a value in a second time changes nothing. -/
theorem mergeValue_again {found : Option Value} (hfound : ∀ old ∈ found, old.Distinct)
    (hnew : new.Distinct) :
    Fields.mergeValue (some (Fields.mergeValue found new)) new = Fields.mergeValue found new := by
  have hmerged := hereditary_distinct.mergeValue hfound hnew
  exact ((compares_eq.merge_iff hmerged hnew).mpr (restated_mergeValue found hnew)).symm

end TableQuery.Value
