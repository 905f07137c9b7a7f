import TableQuery.Action.Mutation
import TableQuery.Proofs.PrimaryKey.Identity

namespace TableQuery

structure Admission (admits : Value → Prop) : Prop where
  legal : ∀ {key : Value}, key.isValidKey = true → admits key
  equal : ∀ {a b : Value}, a.equals b = true → admits a → admits b

theorem admission_true : Admission fun _ => True := ⟨fun _ => trivial, fun _ _ => trivial⟩

theorem isValidKey_of_equals {a b : Value} (h : a.equals b = true) (ha : a.isValidKey = true) :
    b.isValidKey = true := by
  have hkind := Value.kind_eq_of_equals h
  cases a <;> cases b <;> simp_all [Value.kind, Value.isValidKey]

theorem admission_isValidKey : Admission fun key => key.isValidKey = true :=
  ⟨fun h => h, isValidKey_of_equals⟩

structure IsRow (admits : Value → Prop) (row : Value) : Prop where
  distinct : row.distinctKeys = true
  keyed : ∃ id, row.id? = some id ∧ admits id

structure KeyedBy (admits : Value → Prop) (rows : List Value) : Prop where
  isRow : ∀ row ∈ rows, IsRow admits row
  apart : rows.Pairwise fun a b => a.sameRow b = false

variable {admits : Value → Prop} {a b c row new key : Value} {rows : List Value} {i j : Nat}

namespace IsRow

theorem exists_fields (h : IsRow admits row) :
    ∃ fields id, row = .object fields ∧ Fields.get? primaryKey fields = some id ∧ admits id := by
  obtain ⟨id, hid, hadmits⟩ := h.keyed
  cases row <;> try cases hid
  exact ⟨_, id, rfl, hid, hadmits⟩

theorem isObject (h : IsRow admits row) : row.isObject = true := by
  obtain ⟨fields, _, rfl, -, -⟩ := h.exists_fields
  rfl

theorem distinct_id {id : Value} (h : IsRow admits row) (hid : row.id? = some id) :
    id.distinctKeys = true :=
  Value.hereditary_distinct.field? h.distinct hid

theorem sameRow_self (h : IsRow admits a) : a.sameRow a = true := Value.sameRow_self h.distinct

theorem sameRow_symm (ha : IsRow admits a) (hb : IsRow admits b) (h : a.sameRow b = true) :
    b.sameRow a = true :=
  Value.sameRow_symm ha.distinct hb.distinct h

theorem sameRow_trans (ha : IsRow admits a) (hb : IsRow admits b) (hc : IsRow admits c)
    (hab : a.sameRow b = true) (hbc : b.sameRow c = true) : a.sameRow c = true :=
  Value.sameRow_trans ha.distinct hb.distinct hc.distinct hab hbc

end IsRow

namespace KeyedBy

theorem nil : KeyedBy admits [] := ⟨by simp, .nil⟩

theorem sublist (h : KeyedBy admits rows) {kept : List Value} (hsub : kept.Sublist rows) :
    KeyedBy admits kept :=
  ⟨fun row hrow => h.isRow row (hsub.subset hrow), h.apart.sublist hsub⟩

theorem distinct (h : KeyedBy admits rows) : ∀ row ∈ rows, row.distinctKeys = true :=
  fun row hrow => (h.isRow row hrow).distinct

theorem getElem?_isRow (h : KeyedBy admits rows) (hi : rows[i]? = some row) : IsRow admits row :=
  h.isRow row (List.mem_of_getElem? hi)

/-- The position of a row is known by its key. -/
theorem index_eq (h : KeyedBy admits rows) (hi : rows[i]? = some a) (hj : rows[j]? = some b)
    (hsame : a.sameRow b = true) : i = j := by
  obtain ⟨hilt, rfl⟩ := List.getElem?_eq_some_iff.mp hi
  obtain ⟨hjlt, rfl⟩ := List.getElem?_eq_some_iff.mp hj
  have hapart := List.pairwise_iff_getElem.mp h.apart
  rcases Nat.lt_trichotomy i j with hlt | heq | hgt
  · have := hapart i j hilt hjlt hlt
    simp [hsame] at this
  · exact heq
  · have hback := IsRow.sameRow_symm (h.getElem?_isRow hi) (h.getElem?_isRow hj) hsame
    have := hapart j i hjlt hilt hgt
    simp [hback] at this

theorem eq_of_sameRow (h : KeyedBy admits rows) (ha : a ∈ rows) (hb : b ∈ rows)
    (hsame : a.sameRow b = true) : a = b := by
  obtain ⟨i, hi⟩ := List.mem_iff_getElem?.mp ha
  obtain ⟨j, hj⟩ := List.mem_iff_getElem?.mp hb
  rw [h.index_eq hi hj hsame] at hi
  exact Option.some.inj (hi.symm.trans hj)

theorem nodup (h : KeyedBy admits rows) : rows.Nodup := by
  rw [List.nodup_iff_getElem?_ne_getElem?]
  intro i j hij hj heq
  have hrow := List.getElem?_eq_getElem hj
  have hself := (h.getElem?_isRow hrow).sameRow_self
  have := h.index_eq (heq.trans hrow) hrow hself
  omega

/-- Rows that are selected from a table, none more often than it is there, are different. -/
theorem nodup_of_subperm (h : KeyedBy admits rows) {selected : List Value}
    (hsub : selected.Subperm rows) : selected.Nodup := by
  obtain ⟨kept, hperm, hsublist⟩ := hsub
  exact hperm.nodup_iff.mp (h.nodup.sublist hsublist)

theorem of_index_eq (hrows : ∀ row ∈ rows, IsRow admits row)
    (h : ∀ (i j : Nat) (a b : Value), rows[i]? = some a → rows[j]? = some b →
      a.sameRow b = true → i = j) : KeyedBy admits rows := by
  refine ⟨hrows, List.pairwise_iff_getElem.mpr fun i j hi hj hlt => ?_⟩
  by_contra hsame
  have heq := h i j _ _ (List.getElem?_eq_getElem hi) (List.getElem?_eq_getElem hj)
    (by simpa using hsame)
  omega

/-- A row whose key is not taken may come last. -/
theorem append (h : KeyedBy admits rows) (hnew : IsRow admits new) (hid : new.id? = some key)
    (hfree : Mutation.hasKey key rows = false) : KeyedBy admits (rows ++ [new]) := by
  refine ⟨fun row hrow => ?_, List.pairwise_append.mpr ⟨h.apart, by simp, ?_⟩⟩
  · rcases List.mem_append.mp hrow with hold | hlast
    · exact h.isRow row hold
    · exact List.mem_singleton.mp hlast ▸ hnew
  · intro live hlive last hlast
    obtain rfl := List.mem_singleton.mp hlast
    obtain ⟨id, hliveId, -⟩ := (h.isRow live hlive).keyed
    have hdiffer := List.any_eq_false.mp hfree live hlive
    simp only [hliveId, Option.any_some, Value.strictEquals_eq_equals] at hdiffer
    rw [sameRow_of_id hliveId hid]
    simpa using hdiffer

/-- A row may be replaced by one with an equal key. -/
theorem set (h : KeyedBy admits rows) (hi : rows[i]? = some row) (hnew : IsRow admits new)
    (hsame : row.sameRow new = true) : KeyedBy admits (rows.set i new) := by
  have hrow := h.getElem?_isRow hi
  have hback := hrow.sameRow_symm hnew hsame
  refine of_index_eq (fun r hr => ?_) fun p q a b hp hq hab => ?_
  · rcases List.mem_or_eq_of_mem_set hr with hold | rfl
    · exact h.isRow r hold
    · exact hnew
  · rw [List.getElem?_set] at hp hq
    -- both positions, one of them or none may be the one that was written
    split at hp <;> split at hq
    · omega
    · next hip hiq =>
      split at hp <;> cases hp
      have hb := h.getElem?_isRow hq
      exact hip ▸ h.index_eq hi hq (hrow.sameRow_trans hnew hb hsame hab)
    · next hip hiq =>
      split at hq <;> cases hq
      have ha := h.getElem?_isRow hp
      exact hiq ▸ h.index_eq hp hi (ha.sameRow_trans hnew hrow hab hback)
    · exact h.index_eq hp hq hab

end KeyedBy

/-- A position that is found holds the same row. -/
theorem exists_of_position {hint : Option Nat} (h : Context.position hint row rows = some i) :
    ∃ live, rows[i]? = some live ∧ live.sameRow row = true := by
  unfold Context.position at h
  rcases Option.or_eq_some_iff.mp h with hhere | ⟨-, hfirst⟩
  · obtain ⟨-, hany⟩ := Option.filter_eq_some_iff.mp hhere
    cases hlive : rows[i]? with
    | none => simp [hlive] at hany
    | some live => exact ⟨live, rfl, by simpa [hlive] using hany⟩
  · obtain ⟨hlt, hsame, -⟩ := List.findIdx?_eq_some_iff_getElem.mp hfirst
    exact ⟨_, List.getElem?_eq_getElem hlt, hsame⟩

/-- A row is found if the table holds the same row. -/
theorem position_ne_none_of_mem {hint : Option Nat} {live : Value} (hmem : live ∈ rows)
    (hsame : live.sameRow row = true) : Context.position hint row rows ≠ none := by
  intro hposition
  have hfirst := (Option.or_eq_none_iff.mp hposition).2
  have hdiffer := List.findIdx?_eq_none_iff.mp hfirst live hmem
  rw [hsame] at hdiffer
  cases hdiffer

/-- The given position is trusted as long as it holds the same row. -/
theorem position_of_same {live : Value} (hi : rows[i]? = some live)
    (hsame : live.sameRow row = true) : Context.position (some i) row rows = some i := by
  have hhere : (some i).filter (fun k => (rows[k]?).any fun live => live.sameRow row) = some i := by
    apply Option.filter_some_pos
    rw [hi, Option.any_some, hsame]
  rw [Context.position, hhere, Option.some_or]

def SameKey (a b : Value) : Prop :=
  ∃ x y, a.id? = some x ∧ b.id? = some y ∧ x.equals y = true

namespace SameKey

theorem sameRow (h : SameKey a b) : a.sameRow b = true := by
  obtain ⟨x, y, hx, hy, hequal⟩ := h
  rw [sameRow_of_id hx hy, hequal]

/-- The same row as one with a key has the same key. -/
theorem of_sameRow_id (ha : a.Distinct) (hb : b.Distinct) {y : Value} (hy : b.id? = some y)
    (h : a.sameRow b = true) : SameKey a b := by
  cases hx : a.id? with
  | some x => exact ⟨x, y, hx, hy, (sameRow_of_id hx hy).symm.trans h⟩
  | none =>
    have hkeys := Value.isSome_id_of_sameRow ha hb h
    rw [hx, hy] at hkeys
    cases hkeys

theorem symm (ha : a.Distinct) (hb : b.Distinct) (h : SameKey a b) : SameKey b a := by
  obtain ⟨x, y, hx, hy, hequal⟩ := h
  have hxd := Value.hereditary_distinct.field? ha hx
  have hyd := Value.hereditary_distinct.field? hb hy
  exact ⟨y, x, hy, hx, Value.equals_symm hxd hyd hequal⟩

theorem trans (h : SameKey a b) (h' : SameKey b c) : SameKey a c := by
  obtain ⟨x, y, hx, hy, hxy⟩ := h
  obtain ⟨y', z, hy', hz, hyz⟩ := h'
  obtain rfl := Option.some.inj (hy.symm.trans hy')
  exact ⟨x, z, hx, hz, Value.equals_trans hxy hyz⟩

theorem of_equals (h : SameKey row a) (hab : a.equals b = true) : SameKey row b := by
  obtain ⟨x, y, hx, hy, hxy⟩ := h
  obtain ⟨z, hz, hyz⟩ := Value.exists_id_of_equals hab hy
  exact ⟨x, z, hx, hz, Value.equals_trans hxy hyz⟩

end SameKey

structure SameKeys (live now : List Value) : Prop where
  length_eq : live.length = now.length
  same : ∀ (i : Nat) (a b : Value), live[i]? = some a → now[i]? = some b → SameKey a b

namespace SameKeys

theorem refl (h : KeyedBy admits rows) : SameKeys rows rows := by
  refine ⟨rfl, fun i a b ha hb => ?_⟩
  obtain rfl := Option.some.inj (ha.symm.trans hb)
  have hrow := h.getElem?_isRow ha
  obtain ⟨id, hid, -⟩ := hrow.keyed
  exact ⟨id, id, hid, hid, Value.equals_refl (hrow.distinct_id hid)⟩

theorem set {live now : List Value} (h : SameKeys live now) (hi : live[i]? = some row)
    (hsame : SameKey row new) : SameKeys live (now.set i new) := by
  refine ⟨by simpa using h.length_eq, fun p a b ha hb => ?_⟩
  rw [List.getElem?_set] at hb
  split at hb
  · next hip =>
    split at hb <;> cases hb
    subst hip
    obtain rfl := Option.some.inj (hi.symm.trans ha)
    exact hsame
  · exact h.same p a b ha hb

/-- A row that was not written yet is found at its position, whatever the hint is. -/
theorem position_eq {live now : List Value} (h : SameKeys live now) (hkeyed : KeyedBy admits live)
    (hi : live[i]? = some row) (hnow : now[i]? = some row) (hint : Option Nat) :
    Context.position hint row now = some i := by
  have hrow := hkeyed.getElem?_isRow hi
  obtain ⟨id, hid, -⟩ := hrow.keyed
  have honly (k : Nat) (other : Value) (hk : now[k]? = some other)
      (hsame : other.sameRow row = true) : k = i := by
    have hlt : k < live.length := by
      have hbound := (List.getElem?_eq_some_iff.mp hk).1
      have hlength := h.length_eq
      omega
    have hlive := List.getElem?_eq_getElem hlt
    obtain ⟨x, y, hx, hy, hequal⟩ := h.same k _ other hlive hk
    rw [sameRow_of_id hy hid] at hsame
    apply hkeyed.index_eq hlive hi
    rw [sameRow_of_id hx hid]
    exact Value.equals_trans hequal hsame
  cases hposition : Context.position hint row now with
  | some k =>
    obtain ⟨other, hk, hsame⟩ := exists_of_position hposition
    rw [honly k other hk hsame]
  | none =>
    have hmem : row ∈ now := List.mem_of_getElem? hnow
    exact absurd hposition (position_ne_none_of_mem hmem hrow.sameRow_self)

end SameKeys

/-- The row that a patch makes of a row keeps its key, up to equality. -/
theorem isRow_update? (hadmits : Admission admits) {fields patch updated : Fields} {changed : Bool}
    (hrow : IsRow admits (.object fields)) (hpatch : (Value.object patch).distinctKeys = true)
    (h : Fields.update? patch fields = some (updated, changed)) :
    IsRow admits (.object updated) ∧ (Value.object fields).sameRow (.object updated) = true := by
  have hmerged : updated = Fields.merge fields patch := by
    unfold Fields.update? at h
    dsimp only at h
    split at h
    · split at h <;> cases h
      rfl
    · cases h
      rfl
  subst hmerged
  obtain ⟨id, hid, hadm⟩ := hrow.keyed
  have hdistinct := Value.hereditary_distinct.mergeFields hrow.distinct hpatch
  have hnames := (Value.distinctKeys_object.mp hpatch).1
  have hid' : Fields.get? primaryKey fields = some id := hid
  have hmerge := Fields.get?_merge primaryKey fields hnames
  rw [hid'] at hmerge
  have hself := hrow.distinct_id hid
  cases hp : Fields.get? primaryKey patch with
  | none =>
    rw [hp] at hmerge
    have hget : (Value.object (Fields.merge fields patch)).id? = some id := hmerge
    refine ⟨⟨hdistinct, id, hget, hadm⟩, ?_⟩
    rw [sameRow_of_id hid hget]
    exact Value.equals_refl hself
  | some v =>
    rw [hp] at hmerge
    have hget : (Value.object (Fields.merge fields patch)).id? =
      some (Fields.mergeValue (some id) v) := hmerge
    -- a patch with another key is refused
    have hequal : id.equals v = true := by
      by_contra hne
      simp [Fields.update?, hid', hp, hne] at h
    have hv := Value.hereditary_distinct.get? hpatch hp
    have hkept := Value.equals_mergeValue hself hv hequal
    refine ⟨⟨hdistinct, _, hget, hadmits.equal hkept hadm⟩, ?_⟩
    rw [sameRow_of_id hid hget]
    exact hkept

end TableQuery
