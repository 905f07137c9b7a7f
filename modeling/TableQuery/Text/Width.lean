import TableQuery.Text.EmojiSequence
import TableQuery.Text.Ligature
import TableQuery.Text.Wide

/-!
The width of text on a terminal, in cells. A wide character fills two cells, an invisible one none
and any other one; ligatures and emoji of several characters are measured as the one sign that they
show. What a character adds depends on what stands behind it, so a text is read from its end.
-/

namespace TableQuery.Text

/-- The width of a character alone. Two Khmer signs stand for more than one letter. -/
def charWidth (c : Char) : Nat :=
  if c.toNat ≤ 0xA0 then 1
  else if c = '\u17d8' then 3
  else if c = '\u17a4' then 2
  else if isInvisible c then 0
  else if isWide c then 2
  else 1

/-- The sign behind a place in a text. -/
inductive Sign where
  | plain
  /-- A letter, and whether a joiner stands in front of it. -/
  | letter (l : Letter) (joined : Bool)
  | emoji (tail : EmojiTail)
  deriving DecidableEq, Repr

namespace Sign

def ofChar (c : Char) : Sign :=
  match Letter.ofChar? c with
  | some l => .letter l false
  | none => ((EmojiTail.ofChar? c).map .emoji).getD .plain

/-- Whether an emoji belongs to the sign though a selector for emoji stands between. -/
def takesVariant : Sign → Bool
  | .emoji tail => tail.takesVariant
  | _ => false

/-- What is left of a sign once a variation selector stands in front of it. -/
def behindSelector : Sign → Sign
  | .letter l joined => .letter l joined
  | _ => .plain

/-- The sign that a character makes with the sign behind it, and the cells that it adds. -/
def join? (c : Char) : Sign → Option (Int × Sign)
  | .plain => none
  | .letter l joined =>
    if c = joiner then some (0, .letter l true)
    else if ligatureMarks.contains c then some (0, .letter l joined)
    else (l.fuse? joined c).map fun (width, grown) =>
      (width, (grown.map fun l => .letter l joined).getD .plain)
  | .emoji tail => (tail.join? c).map fun (width, tail) => (width, .emoji tail)

end Sign

/-- What stands behind a place in a text: a sign, and a selector in front of it. -/
structure Behind where
  sign : Sign
  variant : Option Variant
  /-- Whether an emoji right in front of the selector is part of the emoji behind it. -/
  joined : Bool
  deriving DecidableEq, Repr

namespace Behind

def ofSign (sign : Sign) : Behind := ⟨sign, none, false⟩

def nothing : Behind := ofSign .plain

/-- A selector in front of what stands behind a place. -/
def select (variant : Variant) (b : Behind) : Behind :=
  ⟨b.sign.behindSelector, some variant, variant = .emoji && b.sign.takesVariant⟩

/-- The cells that a character adds in front of what stands behind it, and what then stands behind
the place before it. -/
def step (b : Behind) (c : Char) : Int × Behind :=
  if b.variant = some .emoji && hasEmojiVariant c then
    (if b.joined then 0 else 2, ofSign (.emoji .emoji))
  else if c.toNat ≤ 0xA0 then (1, nothing)
  else match Variant.ofSelector? c with
    | some variant => (0, b.select variant)
    | none =>
      if b.variant = some .text && hasNarrowVariant c then (1, nothing)
      else match b.sign.join? c with
        | some (width, sign) => (width, ofSign sign)
        | none => (charWidth c, ofSign (.ofChar c))

end Behind

/-- The cells that some characters take, and what they are to a character in front of them. -/
def measure : List Char → Int × Behind
  | [] => (0, .nothing)
  | c :: cs =>
    let (width, behind) := measure cs
    let (added, behind) := behind.step c
    (width + added, behind)

def width (text : String) : Nat := (measure text.toList).1.toNat

end TableQuery.Text
