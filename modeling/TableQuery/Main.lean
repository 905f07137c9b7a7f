import TableQuery.CommandLine

namespace TableQuery.CommandLine

def readFile (path : String) : IO (Except FileFault String) := do
  try
    return .ok (← IO.FS.readFile path)
  catch
    | .noFileOrDirectory _ code details | .inappropriateType _ code details
    | .permissionDenied _ code details | .invalidArgument _ code details =>
      return .error (.other s!"{details} (os error {code})")
    | e => return .error (.other (toString e))

def readFiles (paths : List String) : IO Files := do
  let contents ← paths.mapM fun path => return (path, ← readFile path)
  return fun path => (contents.lookup path).getD (.error .missing)

def wantedFile (line : String) : List String :=
  match Command.ofLine line with
  | .load (some path) => [path]
  | _ => []

/-- Reads and performs lines until one ends the session or the input ends. -/
partial def interact (input : IO.FS.Stream) (s : Session) : IO Session := do
  let raw ← input.getLine
  match Text.lines raw with
  | [] =>
    IO.println Session.farewell
    return s
  | line :: _ =>
    let (printed, s) := s.step (← readFiles (wantedFile line)) line
    printed.forM (IO.println ·)
    if Command.ofLine line matches .exit then return s else interact input s

/-- A source of keys that starts at a random number. -/
def randomSource : IO KeySource := do
  let bytes ← IO.getRandomBytes 16
  return .from (bytes.toList.foldl (fun n b => 256 * n + b.toNat) 0)

def reportFailure (f : Failure) : IO Unit := do
  match f.chain with
  | [] => return
  | message :: causes =>
    IO.eprintln s!"Error: {message}"
    if !causes.isEmpty then
      IO.eprintln "\nCaused by:"
      causes.forM fun cause => IO.eprintln s!"    {cause}"

def usage : String :=
  "Usage: tabletop [-v] [-f text|json|table] [--plain] [-d FILE] " ++
    "[query QUERY | tables | describe [ACTION]]"

/-- Runs the program on its options; without a subcommand, a session on the standard input. -/
def perform (o : Options) : IO UInt32 := do
  let files ← readFiles (o.data.toList ++ [historyFile])
  let source ← randomSource
  let colors := (← IO.getEnv "NO_COLOR").isNone && (← (← IO.getStdout).isTty)
  match o.command, openData source files o with
  | none, .ok db =>
    let s := startSession files (viewOf colors o) db
    s.greeting.forM (IO.println ·)
    let ended ← interact (← IO.getStdin) s
    IO.FS.writeFile historyFile ended.history.fileText
    return 0
  | _, _ =>
    let outcome := run source files "" colors o
    outcome.printed.forM (IO.println ·)
    match outcome.failure with
    | none => return 0
    | some f => reportFailure f; return 1

end TableQuery.CommandLine

open TableQuery in
def main (args : List String) : IO UInt32 := do
  match CommandLine.parse args with
  | .ok o => CommandLine.perform o
  | .error .displayHelp => IO.println CommandLine.usage; return 0
  | .error _ => IO.eprintln CommandLine.usage; return 2
