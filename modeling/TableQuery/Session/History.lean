import TableQuery.Text.Lines

namespace TableQuery

structure History where
  maxSize : Nat
  commands : List String
  deriving DecidableEq, Repr

namespace History

def empty (maxSize : Nat) : History := ⟨maxSize, []⟩

/-- The last items of a list, at most `n`. -/
def newest (n : Nat) (commands : List String) : List String := commands.drop (commands.length - n)

def add (line : String) (h : History) : History :=
  let command := Text.trim line
  if command.isEmpty || h.commands.getLast? == some command then h
  else { h with commands := newest h.maxSize (h.commands ++ [command]) }

/-- The content of a history file: one command a line. -/
def fileText (h : History) : String := Text.joinLines h.commands ++ "\n"

/-- Takes over the lines of a history file that are not blank, as they are. -/
def load (content : String) (h : History) : History :=
  { h with commands :=
      newest h.maxSize ((Text.lines content).filter fun line => !Text.isBlank line) }

def search (pattern : String) (h : History) : List String :=
  h.commands.filter (Text.contains pattern)

end History

end TableQuery
