namespace TableQuery.Quoted

def hexDigit (n : Nat) : Char := Char.ofNat (if n < 10 then n + '0'.toNat else n - 10 + 'a'.toNat)

def hexValue? (c : Char) : Option Nat :=
  if '0' ≤ c ∧ c ≤ '9' then some (c.toNat - '0'.toNat)
  else if 'a' ≤ c ∧ c ≤ 'f' then some (c.toNat - 'a'.toNat + 10)
  else if 'A' ≤ c ∧ c ≤ 'F' then some (c.toNat - 'A'.toNat + 10)
  else none

/-- The 16-bit unit written with four hexadecimal digits. -/
def unit? (a b c d : Char) : Option Nat := do
  return (((← hexValue? a) * 16 + (← hexValue? b)) * 16 + (← hexValue? c)) * 16 + (← hexValue? d)

def isHigh (unit : Nat) : Bool := 0xD800 ≤ unit && unit ≤ 0xDBFF

def isLow (unit : Nat) : Bool := 0xDC00 ≤ unit && unit ≤ 0xDFFF

/-- The character above `U+FFFF` that a pair of surrogate units stands for. -/
def ofPair (high low : Nat) : Char :=
  Char.ofNat ((high - 0xD800) * 0x400 + (low - 0xDC00) + 0x10000)

def escapeMeaning? : Char → Option Char
  | '"' => some '"'
  | '\\' => some '\\'
  | '/' => some '/'
  | 'b' => some '\x08'
  | 'f' => some '\x0c'
  | 'n' => some '\n'
  | 'r' => some '\r'
  | 't' => some '\t'
  | _ => none

/-- A raw control character, a bare double quote, an unknown escape and a surrogate without its
partner are refused. -/
def decode : List Char → Option (List Char)
  | [] => some []
  | '\\' :: 'u' :: a :: b :: c :: d :: rest =>
    match unit? a b c d with
    | none => none
    | some high =>
      if isLow high then none
      else if isHigh high then
        match rest with
        | '\\' :: 'u' :: e :: f :: g :: h :: rest =>
          match unit? e f g h with
          | none => none
          | some low => if isLow low then (decode rest).map (ofPair high low :: ·) else none
        | _ => none
      else (decode rest).map (Char.ofNat high :: ·)
  | '\\' :: c :: rest =>
    match escapeMeaning? c with
    | none => none
    | some x => (decode rest).map (x :: ·)
  | c :: rest =>
    if c = '\\' ∨ c = '"' ∨ c < ' ' then none else (decode rest).map (c :: ·)

def encodeChar : Char → List Char
  | '"' => ['\\', '"']
  | '\\' => ['\\', '\\']
  | '\x08' => ['\\', 'b']
  | '\x0c' => ['\\', 'f']
  | '\n' => ['\\', 'n']
  | '\r' => ['\\', 'r']
  | '\t' => ['\\', 't']
  | c =>
    if c < ' ' then ['\\', 'u', '0', '0', hexDigit (c.toNat / 16), hexDigit (c.toNat % 16)] else [c]

def encode (cs : List Char) : List Char := cs.flatMap encodeChar

/-- Respells the body of a single-quoted string for double quotes: `\'` becomes a quote without
its backslash, a bare double quote gets one, and every other escape stays. -/
def requote : List Char → List Char
  | [] => []
  | ['\\'] => ['\\', '\\']
  | '\\' :: c :: rest => if c = '\'' then c :: requote rest else '\\' :: c :: requote rest
  | c :: rest => if c = '"' then '\\' :: c :: requote rest else c :: requote rest

end TableQuery.Quoted
