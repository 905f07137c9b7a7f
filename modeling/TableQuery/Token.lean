import TableQuery.Quoted

/-!
Tokens, shared by the text of values and the text of queries. `Token.scan?` reads one character at
a time; blanks stand between tokens and are dropped.
-/

namespace TableQuery

inductive Bracket where
  | round
  | square
  | curly
  deriving DecidableEq, Repr

/-- A token. Numbers and quoted strings keep their spelling, which is judged later. -/
inductive Token where
  | word (name : String)
  | number (spelling : String)
  | quoted (single : Bool) (body : String)
  | dot
  | comma
  | colon
  | opening (b : Bracket)
  | closing (b : Bracket)
  deriving DecidableEq, Repr

def isBlank (c : Char) : Bool := c == ' ' || c == '\t' || c == '\r' || c == '\n'

def isWordStart (c : Char) : Bool := c.isAlpha || c == '_' || c == '$'

def isWordChar (c : Char) : Bool := isWordStart c || c.isDigit

inductive NumberPart where
  | minus
  | zero
  | whole
  | point
  | fraction
  | mark
  | markSign
  | exponent
  deriving DecidableEq, Repr

/-- What the characters read so far have begun, in reverse. -/
inductive Scan where
  | idle
  | word (read : List Char)
  | number (part : NumberPart) (read : List Char)
  | quoted (single : Bool) (read : List Char)
  | escaped (single : Bool) (read : List Char)
  deriving DecidableEq, Repr

namespace Token

def quote (single : Bool) : Char := if single then '\'' else '"'

def chars : Token → List Char
  | word name => name.toList
  | number spelling => spelling.toList
  | quoted single body => quote single :: body.toList ++ [quote single]
  | dot => ['.']
  | comma => [',']
  | colon => [':']
  | opening .round => ['(']
  | opening .square => ['[']
  | opening .curly => ['\x7b']
  | closing .round => [')']
  | closing .square => [']']
  | closing .curly => ['\x7d']

def text (t : Token) : String := String.ofList t.chars

def ofWord (read : List Char) : Token := word (String.ofList read.reverse)

def ofNumber (read : List Char) : Token := number (String.ofList read.reverse)

def punctuation? : Char → Option Token
  | '.' => some dot
  | ',' => some comma
  | ':' => some colon
  | '(' => some (opening .round)
  | '[' => some (opening .square)
  | '\x7b' => some (opening .curly)
  | ')' => some (closing .round)
  | ']' => some (closing .square)
  | '\x7d' => some (closing .curly)
  | _ => none

end Token

namespace Scan

def start? (c : Char) : Option (List Token × Scan) :=
  if isBlank c then some ([], idle)
  else if isWordStart c then some ([], word [c])
  else if c == '-' then some ([], number .minus [c])
  else if c == '0' then some ([], number .zero [c])
  else if c.isDigit then some ([], number .whole [c])
  else if c == '"' then some ([], quoted false [])
  else if c == '\'' then some ([], quoted true [])
  else (Token.punctuation? c).map fun t => ([t], idle)

/-- Ends the token read so far in front of `c`, with further tokens behind it. -/
def endBefore? (c : Char) (tokens : List Token) : Option (List Token × Scan) :=
  (start? c).map fun (more, scan) => (tokens ++ more, scan)

/-- The next character of a number. No word or digit may stand directly behind one. -/
def numberStep? (part : NumberPart) (read : List Char) (c : Char) : Option (List Token × Scan) :=
  let go (next : NumberPart) : Option (List Token × Scan) := some ([], number next (c :: read))
  let isMark := c == 'e' || c == 'E'
  match part with
  | .minus => if c == '0' then go .zero else if c.isDigit then go .whole else none
  | .zero =>
    if c == '.' then go .point else if isMark then go .mark
    else if isWordChar c then none else endBefore? c [Token.ofNumber read]
  | .whole =>
    if c.isDigit then go .whole else if c == '.' then go .point else if isMark then go .mark
    else if isWordChar c then none else endBefore? c [Token.ofNumber read]
  | .point =>
    if c.isDigit then go .fraction else endBefore? c [Token.ofNumber read.tail, .dot]
  | .fraction =>
    if c.isDigit then go .fraction else if isMark then go .mark
    else if isWordChar c then none else endBefore? c [Token.ofNumber read]
  | .mark =>
    if c.isDigit then go .exponent else if c == '+' || c == '-' then go .markSign else none
  | .markSign => if c.isDigit then go .exponent else none
  | .exponent =>
    if c.isDigit then go .exponent
    else if isWordChar c then none else endBefore? c [Token.ofNumber read]

/-- The tokens that one more character completes and what it leaves begun. -/
def step? : Scan → Char → Option (List Token × Scan)
  | idle, c => start? c
  | word read, c =>
    if isWordChar c then some ([], word (c :: read)) else endBefore? c [Token.ofWord read]
  | number part read, c => numberStep? part read c
  | quoted single read, c =>
    if c == '\\' then some ([], escaped single (c :: read))
    else if c == Token.quote single then
      some ([.quoted single (String.ofList read.reverse)], idle)
    else some ([], quoted single (c :: read))
  | escaped single read, c => some ([], quoted single (c :: read))

def finish? : Scan → Option (List Token)
  | idle => some []
  | word read => some [Token.ofWord read]
  | number .zero read | number .whole read | number .fraction read | number .exponent read =>
    some [Token.ofNumber read]
  | _ => none

def run? : Scan → List Char → Option (List Token)
  | scan, [] => scan.finish?
  | scan, c :: cs =>
    match scan.step? c with
    | none => none
    | some (tokens, next) => (run? next cs).map (tokens ++ ·)

end Scan

/-- The tokens of a text; none if some character belongs to no token. -/
def Token.scan? (text : String) : Option (List Token) := Scan.idle.run? text.toList

end TableQuery
