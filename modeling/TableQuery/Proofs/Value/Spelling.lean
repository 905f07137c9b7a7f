import TableQuery.Proofs.Quoted
import TableQuery.Proofs.Value.Fields

namespace TableQuery

def InField {α : Type} (R : α → List Token → Prop) (field : String × α) (piece : List Token) :
    Prop :=
  ∃ token first, token.IsString field.1 ∧ R field.2 first ∧ piece = token :: .colon :: first

theorem InField.imp {α : Type} {R S : α → List Token → Prop} {field : String × α}
    {piece : List Token} (h : ∀ first, R field.2 first → S field.2 first)
    (hfield : InField R field piece) : InField S field piece := by
  obtain ⟨token, first, hkey, hfirst, rfl⟩ := hfield
  exact ⟨token, first, hkey, h first hfirst, rfl⟩

theorem exists_forall₂ {α β : Type} {R : α → β → Prop} {xs : List α}
    (h : ∀ x ∈ xs, ∃ y, R x y) : ∃ ys, List.Forall₂ R xs ys := by
  induction xs with
  | nil => exact ⟨[], .nil⟩
  | cons x rest ih =>
    obtain ⟨hx, hrest⟩ := List.forall_mem_cons.mp h
    obtain ⟨y, hy⟩ := hx
    obtain ⟨ys, hys⟩ := ih hrest
    exact ⟨y :: ys, .cons hy hys⟩

namespace Value

theorem itemsSpelled_iff {items : List Value} {pieces : List (List Token)} :
    ItemsSpelled items pieces ↔ List.Forall₂ Spelled items pieces := by
  induction items generalizing pieces with
  | nil => simp [ItemsSpelled]
  | cons item rest ih => simp [ItemsSpelled, List.forall₂_cons_left_iff, ih]

theorem fieldsSpelled_iff {fields : Fields} {pieces : List (List Token)} :
    FieldsSpelled fields pieces ↔ List.Forall₂ (InField Spelled) fields pieces := by
  induction fields generalizing pieces with
  | nil => simp [FieldsSpelled]
  | cons pair rest ih =>
    obtain ⟨key, value⟩ := pair
    rw [FieldsSpelled, List.forall₂_cons_left_iff]
    constructor
    · rintro ⟨token, first, others, hkey, hfirst, hothers, rfl⟩
      exact ⟨_, others, ⟨token, first, hkey, hfirst, rfl⟩, ih.mp hothers, rfl⟩
    · rintro ⟨_, others, ⟨token, first, hkey, hfirst, rfl⟩, hothers, rfl⟩
      exact ⟨token, first, others, hkey, hfirst, ih.mpr hothers, rfl⟩

theorem itemTokens_eq (items : List Value) (first : Bool) :
    itemTokens first items =
      (if first || items.isEmpty then [] else [.comma]) ++
        commaSeparated false (items.map tokens) := by
  induction items generalizing first with
  | nil => simp [itemTokens, commaSeparated]
  | cons item rest ih =>
    rw [itemTokens, ih]
    cases rest <;> cases first <;> simp [commaSeparated]

theorem fieldTokens_eq (fields : Fields) (first : Bool) :
    fieldTokens first fields =
      (if first || fields.isEmpty then [] else [.comma]) ++ commaSeparated false
        (fields.map fun pair => .ofString pair.1 :: .colon :: pair.2.tokens) := by
  induction fields generalizing first with
  | nil => simp [fieldTokens, commaSeparated]
  | cons pair rest ih =>
    rw [fieldTokens, ih]
    cases rest <;> cases first <;> simp [commaSeparated]

/-- The text of a value is one of its spellings. -/
theorem spelled_tokens (v : Value) : v.Spelled v.tokens := by
  induction v using Value.induction with
  | null => simp [Spelled, tokens]
  | bool b => cases b <;> simp [Spelled, tokens]
  | number n => simp [Spelled, tokens]
  | string s =>
    rw [Spelled, tokens]
    exact ⟨.ofString s, Token.isString_ofString s, rfl⟩
  | array items ih =>
    rw [Spelled, tokens, itemTokens_eq]
    refine ⟨items.map tokens, false, itemsSpelled_iff.mpr ?_, rfl⟩
    exact List.forall₂_map_right_iff.mpr (List.forall₂_same.mpr ih)
  | object fields ih =>
    rw [Spelled, tokens, fieldTokens_eq]
    refine ⟨_, false, fieldsSpelled_iff.mpr ?_, rfl⟩
    refine List.forall₂_map_right_iff.mpr (List.forall₂_same.mpr fun pair hpair => ?_)
    exact ⟨.ofString pair.1, _, Token.isString_ofString pair.1, ih pair hpair, rfl⟩

theorem mem_itemNumbers {items : List Value} {n : Number} :
    n ∈ itemNumbers items ↔ ∃ item ∈ items, n ∈ item.numbers := by
  induction items with
  | nil => simp [itemNumbers]
  | cons item rest ih => simp [itemNumbers, ih]

theorem mem_fieldNumbers {fields : Fields} {n : Number} :
    n ∈ fieldNumbers fields ↔ ∃ pair ∈ fields, n ∈ pair.2.numbers := by
  induction fields with
  | nil => simp [fieldNumbers]
  | cons pair rest ih => simp [fieldNumbers, ih]

end Value

end TableQuery
