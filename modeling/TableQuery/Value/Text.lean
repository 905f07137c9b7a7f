import TableQuery.Binary64.Decimal
import TableQuery.Token
import TableQuery.Value.Basic

namespace TableQuery

def Number.text : Number → String
  | .int n => toString n
  | .real x => x.text

def Token.ofString (s : String) : Token := .quoted false (String.ofList (Quoted.encode s.toList))

namespace Value

mutual
def tokens : Value → List Token
  | null => [.word "null"]
  | bool true => [.word "true"]
  | bool false => [.word "false"]
  | number n => [.number n.text]
  | string s => [.ofString s]
  | array items => .opening .square :: itemTokens true items ++ [.closing .square]
  | object fields => .opening .curly :: fieldTokens true fields ++ [.closing .curly]

/-- The items of an array; a comma stands before each but the first. -/
def itemTokens (first : Bool) : List Value → List Token
  | [] => []
  | item :: rest => (if first then [] else [.comma]) ++ tokens item ++ itemTokens false rest

def fieldTokens (first : Bool) : List (String × Value) → List Token
  | [] => []
  | (key, value) :: rest =>
    (if first then [] else [.comma]) ++ .ofString key :: .colon :: tokens value ++
      fieldTokens false rest
end

def text (v : Value) : String := String.join (v.tokens.map Token.text)

def indent (depth : Nat) : String := "".pushn ' ' (2 * depth)

mutual
def indentedAt (depth : Nat) : Value → String
  | array [] => "[]"
  | object [] => "\x7b\x7d"
  | array items => "[\n" ++ indentedItems (depth + 1) items ++ "\n" ++ indent depth ++ "]"
  | object fields =>
    "\x7b\n" ++ indentedFields (depth + 1) fields ++ "\n" ++ indent depth ++ "\x7d"
  | v => v.text

def indentedItems (depth : Nat) : List Value → String
  | [] => ""
  | [item] => indent depth ++ indentedAt depth item
  | item :: rest => indent depth ++ indentedAt depth item ++ ",\n" ++ indentedItems depth rest

def indentedFields (depth : Nat) : List (String × Value) → String
  | [] => ""
  | [(key, value)] => indent depth ++ (Token.ofString key).text ++ ": " ++ indentedAt depth value
  | (key, value) :: rest =>
    indent depth ++ (Token.ofString key).text ++ ": " ++ indentedAt depth value ++ ",\n" ++
      indentedFields depth rest
end

/-- A value over several lines, two blanks deeper for each array or object around it. -/
def indented (v : Value) : String := v.indentedAt 0

end Value

end TableQuery
