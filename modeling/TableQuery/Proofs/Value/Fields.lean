import Mathlib.Data.List.Forall2
import Mathlib.Data.List.Induction
import Mathlib.Data.List.Nodup
import TableQuery.Value.Keys
import TableQuery.Value.Shape

namespace TableQuery

theorem forall₂_imp {α β : Type} {R S : α → β → Prop} {xs : List α} {ys : List β}
    (h : List.Forall₂ R xs ys) (himp : ∀ x ∈ xs, ∀ y, R x y → S x y) : List.Forall₂ S xs ys := by
  have hboth := (List.forall₂_and_left xs ys).mpr ⟨himp, h⟩
  exact hboth.imp fun x y hxy => hxy.1 y hxy.2

section

variable {names part : List String} (hmem : ∀ a ∈ part, a ∈ names)
  (h : part.Pairwise fun a b => names.idxOf a < names.idxOf b)

include hmem h

/-- Names in the order of a list of names are so in every continuation of the list. -/
theorem pairwise_idxOf_append (more : List String) :
    part.Pairwise fun a b => (names ++ more).idxOf a < (names ++ more).idxOf b := by
  refine h.imp_of_mem fun {a b} ha hb hlt => ?_
  rwa [List.idxOf_append_of_mem (hmem a ha), List.idxOf_append_of_mem (hmem b hb)]

/-- A new name comes behind all others. -/
theorem pairwise_idxOf_concat {name : String} (hname : name ∉ names) :
    (part ++ [name]).Pairwise fun a b =>
      (names ++ [name]).idxOf a < (names ++ [name]).idxOf b := by
  refine List.pairwise_append.mpr ⟨pairwise_idxOf_append hmem h [name],
    List.pairwise_singleton _ _, fun a ha b hb => ?_⟩
  obtain rfl := List.mem_singleton.mp hb
  calc (names ++ [b]).idxOf a
    _ = names.idxOf a := List.idxOf_append_of_mem (hmem a ha)
    _ < names.length := List.idxOf_lt_length_of_mem (hmem a ha)
    _ ≤ (names ++ [b]).idxOf b := by simp [List.idxOf_append_of_notMem hname]

end

namespace Fields

theorem get?_cons (name k : String) (v : Value) (rest : Fields) :
    get? name ((k, v) :: rest) = if name = k then some v else get? name rest :=
  Assoc.lookup_cons name k v rest

theorem get?_append (name : String) (xs ys : Fields) :
    get? name (xs ++ ys) = (get? name xs).or (get? name ys) := by
  simp [get?, List.lookup_append]

/-- An entry that may be missing is found under its own name only. -/
theorem get?_toList {α : Type} (name k : String) (f : α → Value) (x : Option α) :
    get? name (x.toList.map fun a => (k, f a)) = if name = k then x.map f else none := by
  cases x with
  | none => simp [get?]
  | some a => exact get?_cons name k (f a) []

theorem get?_set (name other : String) (v : Value) (fields : Fields) :
    get? other (set name v fields) = if other = name then some v else get? other fields :=
  Assoc.lookup_set name other v fields

theorem keys_set (name : String) (v : Value) (fields : Fields) :
    keys (set name v fields) = if name ∈ keys fields then keys fields else keys fields ++ [name] :=
  Assoc.keys_set name v fields

theorem mem_of_get? {name : String} {v : Value} {fields : Fields}
    (h : get? name fields = some v) : (name, v) ∈ fields := by
  induction fields with
  | nil => simp [get?] at h
  | cons pair rest ih =>
    obtain ⟨k, w⟩ := pair
    rw [get?_cons] at h
    split at h
    · next hk =>
      simp only [Option.some.injEq] at h
      simp [hk, h]
    · exact List.mem_cons_of_mem _ (ih h)

theorem get?_of_mem {name : String} {v : Value} {fields : Fields}
    (hnodup : (keys fields).Nodup) (hmem : (name, v) ∈ fields) : get? name fields = some v := by
  induction fields with
  | nil => simp at hmem
  | cons pair rest ih =>
    obtain ⟨k, w⟩ := pair
    simp only [keys, List.map_cons, List.nodup_cons, List.mem_map, not_exists, not_and] at hnodup
    rw [get?_cons]
    rcases List.mem_cons.mp hmem with heq | hrest
    · simp only [Prod.mk.injEq] at heq
      simp [heq.1, heq.2]
    · have hne : name ≠ k := fun h => hnodup.1 (name, v) hrest h
      rw [if_neg hne]
      exact ih hnodup.2 hrest

theorem get?_isSome_iff {name : String} {fields : Fields} :
    (get? name fields).isSome ↔ name ∈ keys fields := by
  induction fields with
  | nil => simp [get?, keys]
  | cons pair rest ih =>
    obtain ⟨k, w⟩ := pair
    rw [get?_cons]
    by_cases hk : name = k
    · simp [hk, keys]
    · simpa [hk, keys] using ih

theorem exists_get? {name : String} {fields : Fields} (h : name ∈ keys fields) :
    ∃ v, get? name fields = some v :=
  Option.isSome_iff_exists.mp (get?_isSome_iff.mpr h)

theorem nodup_set (name : String) (v : Value) {fields : Fields} (h : (keys fields).Nodup) :
    (keys (set name v fields)).Nodup := by
  rw [keys_set]
  split
  · exact h
  · next hn =>
    have hnew : ∀ k ∈ keys fields, ¬ k = name := fun k hk heq => hn (heq ▸ hk)
    exact List.nodup_append.mpr ⟨h, by simp, by simpa using hnew⟩

theorem mem_set {name : String} {v : Value} {fields : Fields} {pair : String × Value}
    (h : pair ∈ set name v fields) : pair.2 = v ∨ pair ∈ fields := by
  induction fields with
  | nil => simp_all [set, Assoc.set]
  | cons first rest ih =>
    obtain ⟨k, w⟩ := first
    simp only [set, Assoc.set] at h ih ⊢
    split at h
    · rcases List.mem_cons.mp h with rfl | hrest
      · exact .inl rfl
      · exact .inr (List.mem_cons_of_mem _ hrest)
    · rcases List.mem_cons.mp h with rfl | hrest
      · exact .inr List.mem_cons_self
      · exact (ih hrest).imp id (List.mem_cons_of_mem _)

theorem nodup_merge {fields : Fields} (h : (keys fields).Nodup) (rest : List (String × Value)) :
    (keys (merge fields rest)).Nodup := by
  induction rest generalizing fields with
  | nil => simpa [merge] using h
  | cons pair rest ih =>
    obtain ⟨k, v⟩ := pair
    rw [merge]
    exact ih (nodup_set k _ h)

/-- A merge leaves alone what the second object does not name and merges the rest. -/
theorem get?_merge (name : String) (fields : Fields) {rest : List (String × Value)}
    (h : (keys rest).Nodup) :
    get? name (merge fields rest) = match get? name rest with
      | some v => some (mergeValue (get? name fields) v)
      | none => get? name fields := by
  induction rest generalizing fields with
  | nil => simp [merge, get?]
  | cons pair rest ih =>
    obtain ⟨k, v⟩ := pair
    simp only [keys, List.map_cons, List.nodup_cons] at h
    rw [merge, ih _ h.2, get?_cons, get?_set]
    by_cases hk : name = k
    · subst hk
      have hnone : get? name rest = none := by
        rw [← Option.not_isSome_iff_eq_none, get?_isSome_iff]
        exact h.1
      simp [hnone]
    · simp [hk]

/-- A new field comes last. -/
theorem set_of_not_mem {name : String} (value : Value) {fields : Fields}
    (h : name ∉ keys fields) : set name value fields = fields ++ [(name, value)] :=
  Assoc.set_of_not_mem value h

/-- Fields of different names are taken over as they stand. -/
theorem ofList_of_nodup {fields : Fields} (h : (keys fields).Nodup) : ofList fields = fields :=
  Assoc.foldl_set_of_nodup fields h

/-- Of several fields of one name the last one counts. -/
theorem get?_ofList (name : String) (pairs : List (String × Value)) :
    get? name (ofList pairs) = pairs.reverse.lookup name := by
  induction pairs using List.reverseRecOn with
  | nil => rfl
  | append_singleton pairs pair ih =>
    obtain ⟨key, v⟩ := pair
    have hset : ofList (pairs ++ [(key, v)]) = set key v (ofList pairs) := by
      rw [ofList, List.foldl_append]
      rfl
    rw [hset, get?_set, ih, List.reverse_append]
    exact (Assoc.lookup_cons ..).symm

theorem nodup_ofList (pairs : List (String × Value)) : (keys (ofList pairs)).Nodup := by
  induction pairs using List.reverseRecOn with
  | nil => exact List.nodup_nil
  | append_singleton pairs pair ih =>
    rw [ofList, List.foldl_append]
    exact nodup_set _ _ ih

end Fields

namespace Value

/-- To prove a fact of all values it may be used for the items and fields of a value. -/
@[elab_as_elim]
theorem induction {P : Value → Prop} (null : P null) (bool : ∀ b, P (bool b))
    (number : ∀ n, P (number n)) (string : ∀ s, P (string s))
    (array : ∀ items, (∀ item ∈ items, P item) → P (array items))
    (object : ∀ fields, (∀ pair ∈ fields, P pair.2) → P (object fields)) (v : Value) : P v :=
  match v with
  | .null => null
  | .bool b => bool b
  | .number n => number n
  | .string s => string s
  | .array items => array items fun item _ =>
      induction null bool number string array object item
  | .object fields => object fields fun pair hpair =>
      have : sizeOf pair.2 < 1 + sizeOf fields := by
        have h := List.sizeOf_lt_of_mem hpair
        have : sizeOf pair.2 < sizeOf pair := by cases pair; simp only [Prod.mk.sizeOf_spec]; omega
        omega
      induction null bool number string array object pair.2
termination_by sizeOf v

theorem distinctKeys_array {items : List Value} :
    distinctKeys (array items) = true ↔ ∀ item ∈ items, distinctKeys item = true := by
  rw [distinctKeys]
  induction items with
  | nil => simp [itemsDistinct]
  | cons item rest ih => simp [itemsDistinct, ih]

theorem distinctKeys_object {fields : Fields} :
    distinctKeys (object fields) = true ↔
      (Fields.keys fields).Nodup ∧ ∀ pair ∈ fields, distinctKeys pair.2 = true := by
  rw [distinctKeys]
  induction fields with
  | nil => simp [fieldsDistinct, Fields.keys]
  | cons pair rest ih =>
    obtain ⟨k, v⟩ := pair
    have hk : Fields.contains k rest = false ↔ k ∉ Fields.keys rest := by
      rw [← Fields.get?_isSome_iff, Bool.not_eq_true]
      rfl
    simp only [fieldsDistinct, Bool.and_eq_true, Bool.not_eq_true', hk, ih, Fields.keys,
      List.map_cons, List.nodup_cons, List.forall_mem_cons]
    tauto

abbrev Distinct (v : Value) : Prop := v.distinctKeys = true

/-- What the operations on values have to be told of a property of values to keep it: it is a
property of the parts, and of every value that is put together from values that have it. -/
structure Hereditary (V : Value → Prop) : Prop where
  null : V .null
  bool : ∀ b, V (.bool b)
  number : ∀ n, V (.number n)
  string : ∀ s, V (.string s)
  array : ∀ {items}, (∀ item ∈ items, V item) → V (.array items)
  item : ∀ {items item}, V (.array items) → item ∈ items → V item
  empty : V (.object [])
  set : ∀ {fields v} name, V (.object fields) → V v → V (.object (Fields.set name v fields))
  filter : ∀ {fields} p, V (.object fields) → V (.object (fields.filter p))
  member : ∀ {fields pair}, V (.object fields) → pair ∈ fields → V pair.2

theorem hereditary_true : Hereditary fun _ => True := by
  constructor <;> simp

theorem hereditary_distinct : Hereditary Distinct where
  null := rfl
  bool _ := rfl
  number _ := rfl
  string _ := rfl
  array := distinctKeys_array.mpr
  item h := distinctKeys_array.mp h _
  empty := rfl
  set name hf hv := by
    have hold := distinctKeys_object.mp hf
    refine distinctKeys_object.mpr ⟨Fields.nodup_set name _ hold.1, fun pair hpair => ?_⟩
    rcases Fields.mem_set hpair with hnew | hmem
    · rw [hnew]
      exact hv
    · exact hold.2 pair hmem
  filter p hf := by
    have hold := distinctKeys_object.mp hf
    refine distinctKeys_object.mpr ⟨hold.1.sublist (List.filter_sublist.map Prod.fst), ?_⟩
    exact fun pair hpair => hold.2 pair (List.mem_of_mem_filter hpair)
  member h := (distinctKeys_object.mp h).2 _

namespace Hereditary

variable {V : Value → Prop} (hV : Hereditary V)

include hV

theorem get? {fields : Fields} {name : String} {v : Value} (h : V (.object fields))
    (hget : Fields.get? name fields = some v) : V v :=
  hV.member h (Fields.mem_of_get? hget)

theorem field? {v w : Value} {name : String} (h : V v) (hget : v.field? name = some w) : V w := by
  cases v with
  | object fields => exact hV.get? h hget
  | _ => simp [Value.field?] at hget

theorem ofList {pairs : List (String × Value)} (h : ∀ pair ∈ pairs, V pair.2) :
    V (.object (Fields.ofList pairs)) := by
  have hfold (fields : Fields) (hf : V (.object fields)) :
      V (.object (pairs.foldl (fun fields pair => Fields.set pair.1 pair.2 fields) fields)) := by
    induction pairs generalizing fields with
    | nil => exact hf
    | cons pair rest ih =>
      refine ih (fun p hp => h p (List.mem_cons_of_mem _ hp)) _ ?_
      exact hV.set pair.1 hf (h pair List.mem_cons_self)
  exact hfold [] hV.empty

theorem pluck (names : List String) {fields : Fields} (h : V (.object fields)) :
    V (.object (Fields.pluck names fields)) := by
  refine hV.ofList fun pair hpair => ?_
  obtain ⟨name, -, hname⟩ := List.mem_filterMap.mp hpair
  obtain ⟨v, hv, rfl⟩ := Option.map_eq_some_iff.mp hname
  exact hV.get? h hv

/-- The fields of the second object are set one by one; the induction is on the value that is
merged in, and inside it on the fields of an object. -/
theorem mergeValue {old : Option Value} {v : Value} (hold : ∀ o ∈ old, V o) (h : V v) :
    V (Fields.mergeValue old v) := by
  induction v using Value.induction generalizing old with
  | object incoming ih =>
    have hmerge (rest : List (String × Value)) (hrest : ∀ pair ∈ rest, pair ∈ incoming)
        (fields : Fields) (hf : V (.object fields)) : V (.object (Fields.merge fields rest)) := by
      induction rest generalizing fields with
      | nil => simpa [Fields.merge] using hf
      | cons pair rest ihrest =>
        have hpair := hrest pair List.mem_cons_self
        rw [Fields.merge]
        refine ihrest (fun p hp => hrest p (List.mem_cons_of_mem _ hp)) _ (hV.set _ hf ?_)
        exact ih pair hpair (fun o ho => hV.get? hf ho) (hV.member h hpair)
    rcases old with _ | o
    · simpa [Fields.mergeValue] using h
    · cases o with
      | object existing =>
        rw [Fields.mergeValue]
        exact hmerge incoming (fun _ hp => hp) existing (hold _ rfl)
      | _ => simpa [Fields.mergeValue] using h
  | _ => simpa [Fields.mergeValue] using h

theorem merge {old new : Value} (hold : V old) (hnew : V new) : V (old.merge new) :=
  hV.mergeValue (fun o ho => by cases ho; exact hold) hnew

theorem mergeFields {fields patch : Fields} (hf : V (.object fields)) (hp : V (.object patch)) :
    V (.object (Fields.merge fields patch)) := by
  have h := hV.merge hf hp
  rwa [Value.merge, Fields.mergeValue] at h

end Hereditary

end Value

end TableQuery
