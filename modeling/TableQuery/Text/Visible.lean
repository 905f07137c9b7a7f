import TableQuery.Text.Width

namespace TableQuery.Text

/-- Where a reader of color sequences stands. -/
inductive Place where
  | inText
  | behindEscape
  | inSequence
  deriving DecidableEq, Repr

def isControl (c : Char) : Bool := c.toNat < 0x20 || (0x7F ≤ c.toNat && c.toNat ≤ 0x9F)

/-- How many characters with a width of their own color sequences hide. One that is not ended hides
all that follows. -/
def hidden : Place → List Char → Nat
  | _, [] => 0
  | .inText, c :: cs => hidden (if c = '\x1b' then .behindEscape else .inText) cs
  | .behindEscape, c :: cs => if c = '[' then 1 + hidden .inSequence cs else hidden .inText cs
  | .inSequence, c :: cs =>
    (if isControl c || charWidth c = 0 then 0 else 1) +
      hidden (if c = 'm' then .inText else .inSequence) cs

def visibleWidth (text : String) : Nat := width text - hidden .inText text.toList

end TableQuery.Text
