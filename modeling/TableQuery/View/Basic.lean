import TableQuery.Arity
import TableQuery.TypeTag
import TableQuery.View.Grid
import TableQuery.View.Style

namespace TableQuery

inductive Format where
  | text
  | json
  | table
  deriving DecidableEq, Repr, Inhabited

def Format.ofName? : String → Option Format
  | "text" => some .text
  | "json" => some .json
  | "table" => some .table
  | _ => none

inductive Notice where
  | error
  | info
  | success
  deriving DecidableEq, Repr

namespace Notice

def label : Notice → String
  | error => "Erreur"
  | info => "Info"
  | success => "Succès"

def key : Notice → String
  | error => "error"
  | info => "info"
  | success => "success"

def style : Notice → Style
  | error => .redBold
  | info => .blue
  | success => .greenBold

end Notice

structure ActionLine where
  name : String
  arity : Arity
  type : TypeTag
  deriving Repr

/-- The output format, whether it is plain (no colours, no indentation), and whether the terminal
takes colours. -/
structure View where
  format : Format
  plain : Bool
  colors : Bool
  deriving DecidableEq, Repr

namespace View

/-- Text in a style; without colours it stays as it is. -/
def paint (view : View) (style : Style) (text : String) : String :=
  if !view.plain && view.colors then style.paint text else text

def json (view : View) (v : Value) : String := if view.plain then v.text else v.indented

/-- A value as text: a string is only put between quotes, an array or object is indented. -/
def textOf : Value → String
  | .string s => "\"" ++ s ++ "\""
  | v => v.indented

def value (view : View) (v : Value) : String :=
  match view.format with
  | .text => textOf v
  | .json => view.json v
  | .table => (Grid.ofValue v).render

def tables (view : View) (tables : List (String × Nat)) : String :=
  match view.format with
  | .text => Text.joinLines (tables.map fun (name, rows) =>
      view.paint .bold name ++ s!" ({rows} ligne(s))")
  | .json => view.json (.object (Fields.ofList
      (tables.map fun (name, rows) => (name, .ofNat rows))))
  | .table => Grid.render ⟨["Table", "Lignes"],
      tables.map fun (name, rows) => [name, toString rows]⟩

def arityValue (a : Arity) : Value :=
  .object [("min", .ofNat a.min), ("max", match a.max with
    | some max => .ofNat max
    | none => .null)]

def actions (view : View) (actions : List ActionLine) : String :=
  match view.format with
  | .text => Text.joinLines (actions.map fun a =>
      view.paint .cyan (Text.padRight 10 a.name) ++
        s!" arité {Text.padRight 6 a.arity.text} type {a.type.name}")
  | .json => view.json (.array (actions.map fun a => .object [("id", .string a.name),
      ("arity", arityValue a.arity), ("type", .string a.type.name)]))
  | .table => Grid.render ⟨["Action", "Arité", "Type"],
      actions.map fun a => [a.name, a.arity.text, a.type.name]⟩

def notice (view : View) (n : Notice) (message : String) : String :=
  match view.format with
  | .json => view.json (.object [(n.key, .string message)])
  | _ => if view.plain then n.label ++ ": " ++ message else view.paint n.style message

end View

end TableQuery
