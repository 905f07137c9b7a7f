import TableQuery.Text.Lines
import TableQuery.Text.Visible
import TableQuery.Value.Text

namespace TableQuery

structure Grid where
  titles : List String
  rows : List (List String)
  deriving DecidableEq, Repr

namespace Grid

def maxCell : Nat := 50

/-- A text of at most fifty characters as it is; a longer one ends in dots. -/
def cut (text : String) : String :=
  if maxCell < text.length then String.ofList (text.toList.take (maxCell - 3)) ++ "..." else text

/-- The cell of a value; what is inside an array or object is not shown. -/
def cell : Value → String
  | .string s => cut s
  | .array _ => "[array]"
  | .object _ => "\x7bobject\x7d"
  | v => cut v.text

/-- The names of all fields of some rows, in the order in which they first appear. -/
def columns (rows : List Fields) : List String :=
  (rows.flatMap Fields.keys).foldl
    (fun seen key => if seen.contains key then seen else seen ++ [key]) []

/-- The cells of a row; a missing field leaves its cell empty. -/
def rowCells (columns : List String) (row : Fields) : List String :=
  columns.map fun column => ((Fields.get? column row).map cell).getD ""

def ofRows (rows : List Fields) : Grid := ⟨columns rows, rows.map (rowCells (columns rows))⟩

def kindAndCell (v : Value) : List String := [v.kind.name, cell v]

def ofItems (items : List Value) : Grid where
  titles := ["Index", "Type", "Valeur"]
  rows := items.zipIdx.map fun (item, i) => toString i :: kindAndCell item

def ofFields (fields : Fields) : Grid where
  titles := ["Clé", "Type", "Valeur"]
  rows := fields.map fun (key, value) => key :: kindAndCell value

/-- The fields of all values of a list, if all are objects and there is one. -/
def objects? (items : List Value) : Option (List Fields) :=
  if items.isEmpty then none
  else items.mapM fun
    | .object fields => some fields
    | _ => none

def ofValue : Value → Grid
  | .array items =>
    match objects? items with
    | some rows => ofRows rows
    | none => ofItems items
  | .object fields => ofFields fields
  | v => ⟨["Type", "Valeur"], [kindAndCell v]⟩

/-- The width of each column: that of the widest line of its cells. -/
def widths (g : Grid) : List Nat :=
  (List.range g.titles.length).map fun i =>
    ((g.titles :: g.rows).flatMap fun row =>
      (Text.lines (row[i]?.getD "")).map Text.visibleWidth).foldl max 0

def rule (mark : Char) (widths : List Nat) : String :=
  "+" ++ String.intercalate "+" (widths.map fun w => "".pushn mark (w + 2)) ++ "+"

/-- A text filled up to a width on the terminal, with a blank on each side. -/
def padCell (width : Nat) (text : String) : String :=
  " " ++ text.pushn ' ' (width - Text.visibleWidth text) ++ " "

/-- The lines that a row of cells takes, at least one. -/
def rowLines (widths : List Nat) (row : List String) : List String :=
  let cells := row.map Text.lines
  let height := (cells.map List.length).foldl max 1
  (List.range height).map fun i =>
    "|" ++ String.intercalate "|" ((widths.zip cells).map fun (w, lines) =>
      padCell w (lines[i]?.getD "")) ++ "|"

/-- The lines of a grid: a rule above the titles, a double one below them and one below each row. -/
def lines (g : Grid) : List String :=
  let widths := g.widths
  let rows := (g.rows.map (rowLines widths)).flatMap fun row => row ++ [rule '-' widths]
  let below := if g.rows.isEmpty then [rule '-' widths] else rows
  rule '-' widths :: rowLines widths g.titles ++ [rule '=' widths] ++ below

def render (g : Grid) : String := String.join (g.lines.map (· ++ "\n"))

end Grid

end TableQuery
