namespace TableQuery.Text

/-- The zero width joiner asks for a ligature of the characters on both sides. -/
def joiner : Char := '\u200d'

/-- The form of a character that a variation selector behind it asks for. -/
inductive Variant where
  | text
  | emoji
  deriving DecidableEq, Repr

def Variant.ofSelector? (c : Char) : Option Variant :=
  if c = '\ufe0e' then some .text else if c = '\ufe0f' then some .emoji else none

end TableQuery.Text
