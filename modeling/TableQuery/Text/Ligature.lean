import TableQuery.Text.Invisible
import TableQuery.Text.Joiner

namespace TableQuery.Text

/-- A letter that can end a ligature, or the end of one that can grow. -/
inductive Letter where
  | arabicAlef
  | hebrewLamed
  | bugineseYa
  /-- A ya and the vowel sign i that is joined to it. -/
  | bugineseIYa
  | tifinaghConsonant
  /-- A consonant and the consonant joiner in front of it. -/
  | tifinaghJoined
  | lisuTone
  | khmerConsonant
  | turkicI
  deriving DecidableEq, Repr

/-- The characters within a ligature that do not hinder it. -/
def ligatureMarks : Ranges := [
  (0x34F, 0x34F), (0x17B4, 0x17B5), (0x180B, 0x180D), (0x180F, 0x180F), (0xFE00, 0xFE0F),
  (0xE0100, 0xE01EF)]

def arabicAlefs : Ranges := [
  (0x622, 0x623), (0x625, 0x625), (0x627, 0x627), (0x671, 0x673), (0x675, 0x675),
  (0x773, 0x774), (0x870, 0x882)]

def arabicLams : Ranges := [
  (0x644, 0x644), (0x6B5, 0x6B8), (0x76A, 0x76A), (0x8A6, 0x8A6), (0x8C7, 0x8C7)]

def tifinaghConsonants : Ranges := [(0x2D31, 0x2D65), (0x2D6F, 0x2D6F)]

/-- The Khmer letters that can be written below another one. -/
def khmerConsonants : Ranges := [
  (0x1780, 0x1782), (0x1784, 0x1787), (0x1789, 0x178C), (0x178E, 0x1793), (0x1795, 0x1798),
  (0x179B, 0x179D), (0x17A0, 0x17A0), (0x17A2, 0x17A2), (0x17A7, 0x17A7), (0x17AB, 0x17AC),
  (0x17AF, 0x17AF)]

namespace Letter

def ofChar? (c : Char) : Option Letter :=
  if arabicAlefs.contains c then some .arabicAlef
  else if c = '\u05dc' then some .hebrewLamed
  else if c = '\u1a10' then some .bugineseYa
  else if tifinaghConsonants.contains c then some .tifinaghConsonant
  else if c = '\ua4fc' || c = '\ua4fd' then some .lisuTone
  else if khmerConsonants.contains c then some .khmerConsonant
  else if c.toNat = 0x10C03 then some .turkicI
  else none

/-- The ligature of a letter with the character in front of it: the cells that the character adds,
and the letter that the ligature ends in, if it can grow. Some letters need a joiner between, and
one must not have it. -/
def fuse? (joined : Bool) (c : Char) : Letter → Option (Int × Option Letter)
  | .arabicAlef =>
    if joined then none
    else if arabicLams.contains c then some (0, none)
    else if joinsAcross c then some (0, some .arabicAlef) else none
  | .hebrewLamed => if joined && c = '\u05d0' then some (0, none) else none
  | .bugineseYa => if joined && c = '\u1a17' then some (0, some .bugineseIYa) else none
  | .bugineseIYa => if c = '\u1a15' then some (0, none) else none
  | .tifinaghConsonant =>
    if c = '\u2d7f' then some (1, some .tifinaghJoined)
    else if joined && tifinaghConsonants.contains c then some (0, none) else none
  | .tifinaghJoined => if tifinaghConsonants.contains c then some (-1, none) else none
  | .lisuTone => if '\ua4f8' ≤ c && c ≤ '\ua4fb' then some (0, none) else none
  | .khmerConsonant => if c = '\u17d2' then some (-1, none) else none
  | .turkicI => if joined && c.toNat = 0x10C32 then some (0, none) else none

end Letter

end TableQuery.Text
