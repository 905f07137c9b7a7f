namespace TableQuery.Text

def isWhiteSpace (c : Char) : Bool :=
  let n := c.toNat
  (0x9 ≤ n && n ≤ 0xD) || n == 0x20 || n == 0x85 || n == 0xA0 || n == 0x1680 ||
    (0x2000 ≤ n && n ≤ 0x200A) || n == 0x2028 || n == 0x2029 || n == 0x202F || n == 0x205F ||
    n == 0x3000

def trimChars (cs : List Char) : List Char :=
  ((cs.dropWhile isWhiteSpace).reverse.dropWhile isWhiteSpace).reverse

def trim (text : String) : String := String.ofList (trimChars text.toList)

def isBlank (text : String) : Bool := text.toList.all isWhiteSpace

/-- The pieces between the characters that satisfy `sep`; there is one more than of these. -/
def pieces (sep : Char → Bool) : List Char → List (List Char)
  | [] => [[]]
  | c :: cs =>
    if sep c then [] :: pieces sep cs
    else match pieces sep cs with
      | [] => [[c]]
      | first :: rest => (c :: first) :: rest

/-- The words of a text: what stands between white space. -/
def words (text : String) : List String :=
  ((pieces isWhiteSpace text.toList).filter fun piece => !piece.isEmpty).map String.ofList

/-- A line feed ends a line, and a carriage return in front of it belongs to the line end. -/
def dropReturn (line : List Char) : List Char :=
  if line.getLast? = some '\r' then line.dropLast else line

/-- The lines of a text; a line feed at the very end opens no further line. -/
def lines (text : String) : List String :=
  let all := pieces (· == '\n') text.toList
  let ended := all.dropLast.map dropReturn
  let last := all.getLast?.getD []
  ((if last.isEmpty then ended else ended ++ [last])).map String.ofList

def joinLines (lines : List String) : String := String.intercalate "\n" lines

/-- Whether a pattern stands somewhere in a list of characters. -/
def occursIn (pattern : List Char) : List Char → Bool
  | [] => pattern.isEmpty
  | c :: cs => pattern.isPrefixOf (c :: cs) || occursIn pattern cs

def contains (pattern text : String) : Bool := occursIn pattern.toList text.toList

/-- A text padded with blanks on the right; the length counts characters. -/
def padRight (length : Nat) (text : String) : String := text.pushn ' ' (length - text.length)

end TableQuery.Text
