import TableQuery.Value.Reader
import TableQuery.Value.Text

/-!
Spellings: the bodies of quoted strings and those that stand for a string, the tokens that stand for
a value and the texts that consist of some tokens. Strings may stand in quotes of either kind, and a
comma may stand behind the last item of an array or field of an object.
-/

namespace TableQuery

namespace Quoted

/-- The bodies that may stand in quotes of a kind. A backslash takes any character with it, and the
quote of the kind stands behind one only. -/
inductive InQuotes (single : Bool) : List Char → Prop
  | nil : InQuotes single []
  | plain {c : Char} {rest : List Char} (escape : c ≠ '\\') (quote : c ≠ Token.quote single)
    (more : InQuotes single rest) : InQuotes single (c :: rest)
  | escaped {rest : List Char} (c : Char) (more : InQuotes single rest) :
    InQuotes single ('\\' :: c :: rest)

/-- The ways to write a character in quotes of a kind: itself, a one-letter escape, or one or two
16-bit units. -/
inductive SpellsChar (single : Bool) : Char → List Char → Prop
  | plain {c : Char} (control : ¬ c < ' ') (escape : c ≠ '\\') (quote : c ≠ Token.quote single) :
    SpellsChar single c [c]
  | letter {e c : Char} (meaning : escapeMeaning? e = some c) : SpellsChar single c ['\\', e]
  | apostrophe (quotes : single = true) : SpellsChar single '\'' ['\\', '\'']
  | unit {a b c d : Char} {n : Nat} (value : unit? a b c d = some n) (high : isHigh n = false)
    (low : isLow n = false) : SpellsChar single (Char.ofNat n) ['\\', 'u', a, b, c, d]
  | pair {a b c d e f g h : Char} {m n : Nat} (first : unit? a b c d = some m)
    (second : unit? e f g h = some n) (high : isHigh m = true) (low : isLow n = true) :
    SpellsChar single (ofPair m n) ['\\', 'u', a, b, c, d, '\\', 'u', e, f, g, h]

/-- The bodies that spell some characters in quotes of a kind. -/
inductive Spells (single : Bool) : List Char → List Char → Prop
  | nil : Spells single [] []
  | cons {c : Char} {cs piece body : List Char} (first : SpellsChar single c piece)
    (rest : Spells single cs body) : Spells single (c :: cs) (piece ++ body)

end Quoted

def Token.IsString (s : String) (token : Token) : Prop :=
  ∃ single body, token = .quoted single body ∧ Quoted.Spells single s.toList body.toList

/-- Pieces with commas between them and, if wished, behind the last. -/
def commaSeparated (trailing : Bool) : List (List Token) → List Token
  | [] => []
  | [piece] => piece ++ if trailing then [.comma] else []
  | piece :: rest => piece ++ .comma :: commaSeparated trailing rest

namespace Value

mutual
def Spelled : Value → List Token → Prop
  | null, ts => ts = [.word "null"]
  | bool b, ts => ts = [.word (if b then "true" else "false")]
  | number n, ts => ts = [.number n.text]
  | string s, ts => ∃ token, token.IsString s ∧ ts = [token]
  | array items, ts => ∃ pieces trailing, ItemsSpelled items pieces ∧
      ts = .opening .square :: commaSeparated trailing pieces ++ [.closing .square]
  | object fields, ts => ∃ pieces trailing, FieldsSpelled fields pieces ∧
      ts = .opening .curly :: commaSeparated trailing pieces ++ [.closing .curly]

def ItemsSpelled : List Value → List (List Token) → Prop
  | [], pieces => pieces = []
  | item :: rest, pieces => ∃ first others, Spelled item first ∧ ItemsSpelled rest others ∧
      pieces = first :: others

def FieldsSpelled : List (String × Value) → List (List Token) → Prop
  | [], pieces => pieces = []
  | (key, value) :: rest, pieces => ∃ token first others, token.IsString key ∧
      Spelled value first ∧ FieldsSpelled rest others ∧
      pieces = (token :: .colon :: first) :: others
end

mutual
def numbers : Value → List Number
  | number n => [n]
  | array items => itemNumbers items
  | object fields => fieldNumbers fields
  | _ => []

def itemNumbers : List Value → List Number
  | [] => []
  | item :: rest => numbers item ++ itemNumbers rest

def fieldNumbers : List (String × Value) → List Number
  | [] => []
  | (_, value) :: rest => numbers value ++ fieldNumbers rest
end

end Value

/-- Reading the text of a number gives the number back. -/
def Number.ReadsBack (n : Number) : Prop :=
  Value.read? (Value.number n).text = some (.number n)

/-- The texts of some tokens with any blanks before, between and behind them. -/
inductive Token.Spaced : List Token → List Char → Prop
  | nil {blanks : List Char} (blank : ∀ c ∈ blanks, isBlank c = true) : Spaced [] blanks
  | cons {blanks cs : List Char} {token : Token} {tokens : List Token}
    (blank : ∀ c ∈ blanks, isBlank c = true) (rest : Spaced tokens cs) :
    Spaced (token :: tokens) (blanks ++ token.chars ++ cs)

def isIdentifier (s : String) : Bool :=
  match s.toList with
  | [] => false
  | c :: cs => isWordStart c && cs.all isWordChar

end TableQuery
