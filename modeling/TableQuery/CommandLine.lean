import TableQuery.Session.Basic

namespace TableQuery

inductive UsageError where
  | missingRequiredArgument
  | invalidValue
  | tooManyValues
  | unknownArgument
  | invalidSubcommand
  | argumentConflict
  | displayHelp
  deriving DecidableEq, Repr

inductive Subcommand where
  | query (text : String)
  | tables
  | describe (action : Option String)
  deriving DecidableEq, Repr

structure Options where
  format : Option Format := none
  plain : Bool := false
  data : Option String := none
  command : Option Subcommand := none
  deriving DecidableEq, Repr

namespace CommandLine

inductive Setting where
  | format
  | data
  deriving DecidableEq, Repr

inductive Flag where
  | verbose
  | plain
  | help
  deriving DecidableEq, Repr

def settingOfLetter? : Char → Option Setting
  | 'f' => some .format
  | 'd' => some .data
  | _ => none

def settingOfName? : String → Option Setting
  | "format" => some .format
  | "data" => some .data
  | _ => none

def flagOfLetter? : Char → Option Flag
  | 'v' => some .verbose
  | 'h' => some .help
  | _ => none

def flagOfName? : String → Option Flag
  | "verbose" => some .verbose
  | "plain" => some .plain
  | "help" => some .help
  | _ => none

/-- The options so far and the one that has not settled, with its value if it has come. -/
structure Progress where
  options : Options
  pending : Option (Setting × Option String)

/-- Gives an option its value. That it is given twice is noticed before its value is judged. -/
def assign (setting : Setting) (value : Option String) (o : Options) : Except UsageError Options :=
  match setting, value with
  | _, none => .error .invalidValue
  | .format, some name =>
    if o.format.isSome then .error .argumentConflict
    else match Format.ofName? name with
      | some format => .ok { o with format := some format }
      | none => .error .invalidValue
  | .data, some path =>
    if o.data.isSome then .error .argumentConflict
    else if path.isEmpty then .error .invalidValue
    else .ok { o with data := some path }

def settle (p : Progress) : Except UsageError Options :=
  match p.pending with
  | none => .ok p.options
  | some (setting, value) => assign setting value p.options

/-- A flag; only the level of detail may be given more than once. -/
def setFlag (flag : Flag) (p : Progress) : Except UsageError Progress := do
  let o ← settle p
  match flag with
  | .verbose => return ⟨o, none⟩
  | .plain => if o.plain then throw .argumentConflict else return ⟨{ o with plain := true }, none⟩
  | .help => throw .displayHelp

/-- An option with its value in the same word, or before the word that holds it. -/
def setSetting (setting : Setting) (attached : Option String) (p : Progress) :
    Except UsageError Progress := do
  let o ← settle p
  match attached with
  | some value => return ⟨← assign setting (some value) o, none⟩
  | none => return ⟨o, some (setting, none)⟩

/-- The value behind an equals sign in a word. -/
def splitEquals (cs : List Char) : String × Option String :=
  let name := String.ofList (cs.takeWhile (· != '='))
  match cs.dropWhile (· != '=') with
  | [] => (name, none)
  | _ :: value => (name, some (String.ofList value))

def longOption (cs : List Char) (p : Progress) : Except UsageError Progress :=
  let (name, value) := splitEquals cs
  match flagOfName? name, settingOfName? name with
  | some flag, _ => if value.isSome then .error .tooManyValues else setFlag flag p
  | none, some setting => setSetting setting value p
  | none, none => .error .unknownArgument

/-- The letters behind one dash: flags, up to an option that takes the rest as its value. -/
def shortOptions (p : Progress) : List Char → Except UsageError Progress
  | [] => .ok p
  | c :: rest =>
    match flagOfLetter? c, settingOfLetter? c with
    | some flag, _ => do shortOptions (← setFlag flag p) rest
    | none, some setting =>
      match rest with
      | [] => setSetting setting none p
      | '=' :: value => setSetting setting (some (String.ofList value)) p
      | value => setSetting setting (some (String.ofList value)) p
    | none, none => .error .unknownArgument

inductive Shape where
  | escape
  | long (cs : List Char)
  | short (cs : List Char)
  | plain
  deriving DecidableEq, Repr

def shape (word : String) : Shape :=
  match word.toList with
  | ['-', '-'] => .escape
  | '-' :: '-' :: cs => .long cs
  | ['-'] => .plain
  | '-' :: cs => .short cs
  | _ => .plain

/-- An option behind a subcommand, where only help is known. -/
def innerOption (word : Shape) : UsageError :=
  match word with
  | .long cs =>
    let (name, value) := splitEquals cs
    if name != "help" then .unknownArgument
    else if value.isSome then .tooManyValues else .displayHelp
  | .short ('h' :: _) => .displayHelp
  | _ => .unknownArgument

/-- The values behind a subcommand that takes at most `capacity` of them. -/
def innerValues (capacity : Nat) (escaped : Bool) : List String → Except UsageError (List String)
  | [] => .ok []
  | word :: rest =>
    if escaped || shape word == .plain then
      match capacity with
      | 0 => .error .unknownArgument
      | capacity + 1 => (innerValues capacity escaped rest).map (word :: ·)
    else if shape word == .escape then innerValues capacity true rest
    else .error (innerOption (shape word))

inductive Name where
  | query
  | tables
  | describe
  | help
  deriving DecidableEq, Repr

def name? : String → Option Name
  | "query" => some .query
  | "tables" => some .tables
  | "describe" => some .describe
  | "help" => some .help
  | _ => none

def helpError : List String → UsageError
  | [] => .displayHelp
  | [word] => if (name? word).isSome then .displayHelp else .invalidSubcommand
  | _ => .invalidSubcommand

def subcommand (name : Name) (words : List String) : Except UsageError Subcommand := do
  match name with
  | .query =>
    match ← innerValues 1 false words with
    | [] => throw .missingRequiredArgument
    | text :: _ => return .query text
  | .tables =>
    let _ ← innerValues 0 false words
    return .tables
  | .describe => return .describe (← innerValues 1 false words).head?
  | .help => throw (helpError words)

/-- Behind two dashes alone the program itself takes no word. -/
def escaped (p : Progress) : List String → Except UsageError Options
  | [] => settle p
  | word :: _ => .error (if (name? word).isSome then .unknownArgument else .invalidSubcommand)

def readWords (p : Progress) : List String → Except UsageError Options
  | [] => settle p
  | word :: rest =>
    match p.pending, shape word with
    | _, .escape => escaped p rest
    | _, .long cs => do readWords (← longOption cs p) rest
    | _, .short cs => do readWords (← shortOptions p cs) rest
    | some (setting, none), .plain => readWords { p with pending := some (setting, some word) } rest
    | _, .plain =>
      match name? word with
      | some name => do
        let command ← subcommand name rest
        return { ← settle p with command := some command }
      | none => .error .invalidSubcommand

def parse (words : List String) : Except UsageError Options := readWords ⟨{}, none⟩ words

/-- The file that keeps the history of sessions, and how many commands it keeps. -/
def historyFile : String := "tabletop_history.txt"

def historySize : Nat := 1000

structure Outcome where
  printed : List String
  failure : Option Failure
  history : Option String

def Outcome.ofResult : Except Failure (List String) → Outcome
  | .ok lines => ⟨lines, none, none⟩
  | .error f => ⟨[], some f, none⟩

/-- The database that a run starts with: empty, or the tables of a file. -/
def openData (source : KeySource) (files : Files) (o : Options) : Except Error Database :=
  match o.data with
  | none => .ok (Database.empty source)
  | some path => Database.openFixture source files path

def viewOf (colors : Bool) (o : Options) : View := ⟨o.format.getD .text, o.plain, colors⟩

/-- The session that a run starts with, with the history of former sessions. -/
def startSession (files : Files) (view : View) (db : Database) : Session :=
  let history := History.empty historySize
  ⟨db, view, match files historyFile with
    | .ok content => history.load content
    | .error _ => history⟩

/-- Runs a session over the lines of the input and saves its history. -/
def runSession (files : Files) (input : String) (s : Session) : Outcome :=
  let (lines, ended) := s.run files (Text.lines input)
  ⟨s.greeting ++ lines, none, some ended.history.fileText⟩

def run (source : KeySource) (files : Files) (input : String) (colors : Bool) (o : Options) :
    Outcome :=
  let view := viewOf colors o
  match openData source files o with
  | .error e => ⟨[], some (.data e), none⟩
  | .ok db =>
    match o.command with
    | some (.query text) => .ofResult (showQuery view text db).1
    | some .tables => ⟨showTables view db, none, none⟩
    | some (.describe action) => .ofResult (showActions view action)
    | none => runSession files input (startSession files view db)

end CommandLine

end TableQuery
