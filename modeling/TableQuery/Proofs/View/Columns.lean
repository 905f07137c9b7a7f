import TableQuery.Proofs.Value.Fields
import TableQuery.View.Basic

namespace TableQuery.Grid

structure FirstSeen (names columns : List String) : Prop where
  mem_iff : ∀ name, name ∈ columns ↔ name ∈ names
  nodup : columns.Nodup
  ordered : columns.Pairwise fun a b => names.idxOf a < names.idxOf b

theorem FirstSeen.nil : FirstSeen [] [] := ⟨fun _ => Iff.rfl, .nil, .nil⟩

/-- A name that was seen before changes nothing, and a new one comes last. -/
theorem FirstSeen.concat {names columns : List String} (h : FirstSeen names columns)
    (name : String) : FirstSeen (names ++ [name])
      (if columns.contains name then columns else columns ++ [name]) := by
  have hmem : ∀ a ∈ columns, a ∈ names := fun a => (h.mem_iff a).mp
  split
  · next hseen =>
    have hname : name ∈ columns := by simpa using hseen
    refine ⟨fun a => ?_, h.nodup, pairwise_idxOf_append hmem h.ordered [name]⟩
    rw [List.mem_append, List.mem_singleton, h.mem_iff]
    exact ⟨.inl, fun ha => ha.elim id fun heq => heq ▸ hmem name hname⟩
  · next hnew =>
    have hname : name ∉ columns := by simpa using hnew
    refine ⟨fun a => ?_, ?_, ?_⟩
    · rw [List.mem_append, List.mem_append, h.mem_iff]
    · exact List.nodup_append.mpr ⟨h.nodup, by simp, by
        intro a ha b hb
        rw [List.mem_singleton.mp hb]
        exact fun heq => hname (heq ▸ ha)⟩
    · exact pairwise_idxOf_concat hmem h.ordered (mt (h.mem_iff name).mpr hname)

theorem firstSeen_columns (rows : List Fields) :
    FirstSeen (rows.flatMap Fields.keys) (columns rows) := by
  unfold columns
  -- columns are added at the end, so the induction takes the names from there
  induction rows.flatMap Fields.keys using List.reverseRecOn with
  | nil => exact .nil
  | append_singleton names name ih =>
    rw [List.foldl_append]
    exact ih.concat name

def shown : Value → String
  | .string s => s
  | .array _ => "[array]"
  | .object _ => "\x7bobject\x7d"
  | v => v.text

/-- A text in a cell: as it is if it has at most fifty characters; of a longer one the first
forty-seven and three dots. -/
structure FitsCell (text cell : String) : Prop where
  whole : text.length ≤ 50 → cell = text
  shortened : 50 < text.length → cell = String.ofList (text.toList.take 47) ++ "..."
  length_le : cell.length ≤ 50

theorem fitsCell_cut (text : String) : FitsCell text (cut text) := by
  unfold cut
  split
  · next hlong =>
    refine ⟨fun hshort => absurd hlong (Nat.not_lt.mpr hshort), fun _ => rfl, ?_⟩
    rw [String.length_append, String.length_ofList]
    exact Nat.add_le_add_right (List.length_take_le 47 text.toList) 3
  · next hshort =>
    exact ⟨fun _ => rfl, fun hlong => absurd hlong hshort, Nat.not_lt.mp hshort⟩

theorem cell_eq_cut (v : Value) : cell v = cut (shown v) := by
  have harray : "[array]" = cut "[array]" := by decide
  have hobject : "\x7bobject\x7d" = cut "\x7bobject\x7d" := by decide
  cases v with
  | array items => exact harray
  | object fields => exact hobject
  | _ => rfl

inductive CellOf (row : Fields) (column : String) : String → Prop
  | shows {v : Value} {text : String} (get?_eq : Fields.get? column row = some v)
      (fits : FitsCell (shown v) text) : CellOf row column text
  | empty (get?_eq : Fields.get? column row = none) : CellOf row column ""

theorem cellOf_rowCells (columns : List String) (row : Fields) :
    List.Forall₂ (CellOf row) columns (rowCells columns row) := by
  unfold rowCells
  rw [List.forall₂_map_right_iff, List.forall₂_same]
  intro column _
  cases hfield : Fields.get? column row with
  | none => exact .empty hfield
  | some v =>
    refine .shows hfield ?_
    rw [Option.map_some, Option.getD_some, cell_eq_cut]
    exact fitsCell_cut (shown v)

theorem objects?_map_object {rows : List Fields} (h : rows ≠ []) :
    objects? (rows.map .object) = some rows := by
  rw [objects?, if_neg (by simpa using h)]
  -- only the choice of this table needs a row
  clear h
  induction rows with
  | nil => rfl
  | cons row rest ih => rw [List.map_cons, List.mapM_cons, ih]; rfl

/-- A table of rows is complete and rectangular: its columns are the names of all fields of all
rows, each once, in the order in which they first appear, and each row has one cell for each column.
It is the table that is printed. -/
theorem ofValue_rows {rows : List Fields} (h : rows ≠ []) :
    let g := ofValue (.array (rows.map .object))
    FirstSeen (rows.flatMap Fields.keys) g.titles ∧
      List.Forall₂ (fun row cells => List.Forall₂ (CellOf row) g.titles cells) rows g.rows ∧
      ∀ view : View, view.format = .table →
        view.value (.array (rows.map .object)) = g.render := by
  intro g
  have hg : g = ofRows rows := by
    simp only [g, ofValue, objects?_map_object h]
  refine ⟨?_, ?_, ?_⟩
  · rw [hg]
    exact firstSeen_columns rows
  · rw [hg, ofRows, List.forall₂_map_right_iff, List.forall₂_same]
    exact fun row _ => cellOf_rowCells (columns rows) row
  · intro view hview
    rw [View.value, hview]

/-- Two rows that share a name, one with a text of fifty-one characters in more bytes, and a row
without fields. -/
theorem ofValue_rows_ragged :
    let long := "".pushn 'é' 51
    let rows : List Fields := [[("b", .string long), ("a", .array [.null])], [],
      [("a", .object []), ("c", .null)]]
    let g := ofValue (.array (rows.map .object))
    rows ≠ [] ∧ FirstSeen ["b", "a", "a", "c"] g.titles ∧
      g.titles = ["b", "a", "c"] ∧
      g.rows = [["".pushn 'é' 47 ++ "...", "[array]", ""], ["", "", ""],
        ["", "\x7bobject\x7d", "null"]] ∧
      List.Forall₂ (fun row cells => List.Forall₂ (CellOf row) g.titles cells) rows g.rows := by
  intro long rows g
  have hrows : rows ≠ [] := by decide
  obtain ⟨hseen, hcells, -⟩ := ofValue_rows hrows
  exact ⟨hrows, hseen, by decide +kernel, by decide +kernel, hcells⟩

end TableQuery.Grid
