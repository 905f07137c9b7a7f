import TableQuery.Text.Emoji
import TableQuery.Text.Joiner

namespace TableQuery.Text

/-- The end of an emoji sequence, as far as what stands in front of it can belong to it. -/
inductive EmojiTail where
  | emoji
  | skinTone
  /-- Some letters of flags. -/
  | flagLetters (n : Nat)
  /-- A joiner in front of an emoji. -/
  | joined
  /-- The frame of a key cap in front of a joiner. -/
  | joinedKeyCap
  /-- Some letters of flags in front of a joiner. -/
  | joinedLetters (n : Nat)
  /-- The tags of a flag in front of a joiner: some letters, and some digits in front of them. -/
  | joinedTags (letters digits : Nat)
  deriving DecidableEq, Repr

namespace EmojiTail

def ofChar? (c : Char) : Option EmojiTail :=
  if isSkinTone c then some .skinTone
  else if isFlagLetter c then some (.flagLetters 1)
  else if isEmoji c then some .emoji
  else none

/-- Whether a joiner in front makes it part of a longer sequence. A single letter is no flag. -/
def canBeJoined : EmojiTail → Bool
  | .emoji | .skinTone => true
  | .flagLetters n | .joinedLetters n => 2 ≤ n
  | _ => false

/-- Whether a character and a selector for emoji in front of it belong to the joined emoji. -/
def takesVariant : EmojiTail → Bool
  | .joined | .joinedKeyCap => true
  | _ => false

/-- The cells of flag letters in front of a joiner. They pair up from the first one on: a last pair
is part of the joined emoji, and a single last letter stands alone. -/
def letterCells (n : Nat) : Int := if n % 2 = 0 then n - 2 else n

/-- Whether tags name a region: two letters or three digits, and up to four letters of a part. A
region of letters is not named without its part. -/
def isRegion (letters digits : Nat) : Bool := digits = 3 || (digits = 0 && 3 ≤ letters)

/-- The tags with one more in front, if they still can name a region. -/
def tag? (letters digits : Nat) (c : Char) : Option EmojiTail :=
  if isTagLetter c && digits = 0 && letters < 6 then some (.joinedTags (letters + 1) 0)
  else if isTagDigit c && digits < 3 && letters ≤ 4 then some (.joinedTags letters (digits + 1))
  else if isTaggedFlag c && isRegion letters digits then some .emoji
  else none

/-- The longer sequence that a character in front makes, and the cells that it adds. -/
def join? (c : Char) (tail : EmojiTail) : Option (Int × EmojiTail) :=
  if c = joiner then if tail.canBeJoined then some (0, .joined) else none
  else match tail with
    | .emoji => none
    | .skinTone => if takesSkinTone c then some (0, .emoji) else none
    | .flagLetters n => if isFlagLetter c then some (1, .flagLetters (n + 1)) else none
    | .joined =>
      if c = '\u20e3' then some (0, .joinedKeyCap)
      else if isFlagLetter c then some (letterCells 1, .joinedLetters 1)
      else if isSkinTone c then some (0, .skinTone)
      else if isTagEnd c then some (0, .joinedTags 0 0)
      else if isEmoji c then some (0, .emoji)
      else none
    | .joinedKeyCap => none
    | .joinedLetters n =>
      if isFlagLetter c then some (letterCells (n + 1) - letterCells n, .joinedLetters (n + 1))
      else none
    | .joinedTags letters digits => (tag? letters digits c).map fun tail => (0, tail)

end EmojiTail

end TableQuery.Text
