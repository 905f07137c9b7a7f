namespace TableQuery

inductive Style where
  | bold
  | cyan
  | blue
  | redBold
  | greenBold
  deriving DecidableEq, Repr

namespace Style

def reset : String := "\x1b[0m"

def code : Style → String
  | bold => "\x1b[1m"
  | cyan => "\x1b[36m"
  | blue => "\x1b[34m"
  | redBold => "\x1b[1;31m"
  | greenBold => "\x1b[1;32m"

/-- A reset inside the text is followed by the style again, so that it reaches to the end. -/
def paint (style : Style) (text : String) : String :=
  style.code ++ String.intercalate (reset ++ style.code) (text.splitOn reset) ++ reset

end Style

end TableQuery
