import Mathlib.Data.List.DropRight
import TableQuery.CommandLine
import TableQuery.Proofs.Term.Blanks

namespace TableQuery

namespace History

def keep (kept : List String) (command : String) : List String :=
  if kept.getLast? = some command then kept else kept ++ [command]

/-- Leaving out the oldest before more commands come leaves out none that would have stayed. -/
theorem newest_newest_append (n : Nat) (commands more : List String) :
    newest n (newest n commands ++ more) = newest n (commands ++ more) := by
  have hcut : newest n commands ++ more = (commands ++ more).drop (commands.length - n) := by
    rw [List.drop_append_of_le_length (Nat.sub_le _ _), newest]
  -- what the first cut takes away, the second takes away as well
  have hcount : commands.length - n + (((commands ++ more).length - (commands.length - n)) - n) =
      (commands ++ more).length - n := by
    simp only [List.length_append]
    omega
  rw [hcut, newest, List.length_drop, List.drop_drop, hcount, newest]

@[simp] theorem newest_newest (n : Nat) (commands : List String) :
    newest n (newest n commands) = newest n commands := by
  simpa using newest_newest_append n commands []

theorem getLast?_newest {n : Nat} (hn : 0 < n) (commands : List String) :
    (newest n commands).getLast? = commands.getLast? := by
  rw [newest, List.getLast?_drop]
  split
  · have : commands = [] := List.eq_nil_of_length_eq_zero (by omega)
    rw [this, List.getLast?_nil]
  · rfl

structure Holds (h : History) (size : Nat) (kept : List String) : Prop where
  maxSize_eq : h.maxSize = size
  commands_eq : h.commands = newest size kept

variable {size : Nat} {kept : List String}

theorem Holds.add_blank {h : History} (hh : h.Holds size kept) {line : String}
    (hline : Text.trim line = "") : (h.add line).Holds size kept := by
  rwa [add, if_pos (by simp [hline])]

/-- The last command that a history holds is the last one kept, so both notice a repetition. -/
theorem Holds.add_command {h : History} (hsize : 0 < size) (hh : h.Holds size kept)
    {line : String} (hline : Text.trim line ≠ "") :
    (h.add line).Holds size (keep kept (Text.trim line)) := by
  have hlast : h.commands.getLast? = kept.getLast? := by
    rw [hh.commands_eq, getLast?_newest hsize]
  by_cases hrepeated : kept.getLast? = some (Text.trim line)
  · rw [keep, if_pos hrepeated, add, if_pos (by simp [hlast, hrepeated])]
    exact hh
  · rw [keep, if_neg hrepeated, add, if_neg (by simp [hlast, hrepeated, hline])]
    refine ⟨hh.maxSize_eq, ?_⟩
    rw [hh.maxSize_eq, hh.commands_eq, newest_newest_append]

def commandsOf (lines : List String) : List String :=
  (lines.map Text.trim).filter fun command => command ≠ ""

theorem Holds.foldl_add (hsize : 0 < size) (lines : List String) :
    ∀ {h : History} {kept : List String}, h.Holds size kept →
      (lines.foldl (fun h line => h.add line) h).Holds size
        ((commandsOf lines).foldl keep kept) := by
  induction lines with
  | nil => exact fun hh => hh
  | cons line rest ih =>
    intro h kept hh
    by_cases hline : Text.trim line = ""
    · have hrest : commandsOf (line :: rest) = commandsOf rest := by simp [commandsOf, hline]
      rw [hrest, List.foldl_cons]
      exact ih (hh.add_blank hline)
    · have hrest : commandsOf (line :: rest) = Text.trim line :: commandsOf rest := by
        simp [commandsOf, hline]
      rw [hrest, List.foldl_cons, List.foldl_cons]
      exact ih (hh.add_command hsize hline)

def linesOfFile (content : String) : List String :=
  (Text.lines content).filter fun line => !Text.isBlank line

theorem holds_empty (size : Nat) : (empty size).Holds size (newest size []) where
  maxSize_eq := rfl
  commands_eq := by simp [empty, newest]

theorem holds_load (size : Nat) (content : String) :
    ((empty size).load content).Holds size (newest size (linesOfFile content)) where
  maxSize_eq := rfl
  commands_eq := (newest_newest size (linesOfFile content)).symm

end History

namespace Session

def endsSession (line : String) : Bool :=
  match (Text.trim line).toList with
  | '.' :: rest => (Text.words (String.ofList rest)).head? ∈ [some "exit", some "quit"]
  | _ => false

def executed (lines : List String) : List String :=
  (lines.takeWhile fun line => !endsSession line) ++
    (lines.dropWhile fun line => !endsSession line).take 1

def loadOf? (files : Files) (path : String) : Option Database.Request :=
  match files path with
  | .ok content => (Value.read? content).map .init
  | .error _ => none

/-- What a line asks of the database: the query it is, or the tables in a file to load. -/
def request? (files : Files) (line : String) : Option Database.Request :=
  match (Text.trim line).toList with
  | [] => none
  | '.' :: rest =>
    match Text.words (String.ofList rest) with
    | "load" :: path :: _ => loadOf? files path
    | _ => none
  | _ => some (.query (Text.trim line))

theorem executed_cons_of_ends {line : String} (h : endsSession line = true) (rest : List String) :
    executed (line :: rest) = [line] := by
  simp [executed, h]

theorem executed_cons {line : String} (h : endsSession line = false) (rest : List String) :
    executed (line :: rest) = line :: executed rest := by
  simp [executed, h]

/-- The first word behind the point decides which command a line is. -/
theorem ofWords_eq_exit_iff (command : String) (words : List String) :
    Command.ofWords command words = .exit ↔ words.head? ∈ [some "exit", some "quit"] := by
  cases words with
  | nil => simp [Command.ofWords]
  | cons word rest =>
    unfold Command.ofWords
    split <;> simp_all

theorem ofLine_eq_exit_iff (line : String) :
    Command.ofLine line = .exit ↔ endsSession line = true := by
  simp only [Command.ofLine, endsSession]
  cases (Text.trim line).toList with
  | nil => simp
  | cons c rest =>
    by_cases hdot : c = '.'
    · subst hdot
      simp [ofWords_eq_exit_iff]
    · simp [hdot]

def requestOf? (files : Files) : Command → Option Database.Request
  | .query text => some (.query text)
  | .load (some path) => loadOf? files path
  | _ => none

theorem requestOf?_ofWords (files : Files) (command : String) (words : List String) :
    requestOf? files (Command.ofWords command words) =
      match words with
      | "load" :: path :: _ => loadOf? files path
      | _ => none := by
  by_cases hload : ∃ rest, words = "load" :: rest
  · obtain ⟨rest, rfl⟩ := hload
    cases rest <;> rfl
  · have hnone : requestOf? files (Command.ofWords command words) = none := by
      unfold Command.ofWords
      split <;> simp_all [requestOf?]
    rw [hnone]
    split
    · exact absurd ⟨_, rfl⟩ hload
    · rfl

theorem requestOf?_ofLine (files : Files) (line : String) :
    requestOf? files (Command.ofLine line) = request? files line := by
  simp only [Command.ofLine, request?]
  cases (Text.trim line).toList with
  | nil => rfl
  | cons c rest =>
    by_cases hdot : c = '.'
    · subst hdot
      exact requestOf?_ofWords files _ _
    · simp [hdot, requestOf?]

variable {files : Files}

theorem toOption_readFixture (files : Files) (path : String) :
    (readFixture files path).toOption.map Database.Request.init = loadOf? files path := by
  rw [readFixture, loadOf?]
  cases files path with
  | error fault => rfl
  | ok content =>
    dsimp only
    cases Value.read? content <;> rfl

/-- A file that cannot be loaded leaves the database as a fixture that is refused does. -/
theorem load_db (path : String) (s : Session) :
    (s.load files path).2.db = s.db.performAll (loadOf? files path).toList := by
  rw [← toOption_readFixture, load]
  cases readFixture files path with
  | error e => rfl
  | ok fixture =>
    -- the request is an attempt at the same change
    change _ = (s.db.attempt (Database.init fixture)).2
    simp only [Except.bind, Database.attempt]
    cases s.db.init fixture <;> rfl

/-- A command changes the database by what it asks of it, and by nothing else. -/
theorem perform_db (s : Session) (c : Command) :
    (s.perform files c).2.db = s.db.performAll (requestOf? files c).toList := by
  cases c with
  | query text => rfl
  | load path =>
    cases path with
    | none => rfl
    | some path => exact load_db path s
  | format name =>
    cases name with
    | none => rfl
    | some name =>
      simp only [perform, setFormat]
      split <;> rfl
  | _ => rfl

theorem perform_history (s : Session) (c : Command) :
    (s.perform files c).2.history = s.history := by
  cases c with
  | load path =>
    cases path with
    | none => rfl
    | some path =>
      simp only [perform, load]
      split <;> rfl
  | format name =>
    cases name with
    | none => rfl
    | some name =>
      simp only [perform, setFormat]
      split <;> rfl
  | _ => rfl

theorem step_eq_perform (line : String) (s : Session) :
    (s.step files line).2 =
      ({ s with history := s.history.add line }.perform files (.ofLine line)).2 := by
  simp only [step]
  split <;> simp [*]

/-- One line: its request changes the database, and the line itself goes to the history. -/
theorem step_db (line : String) (s : Session) :
    (s.step files line).2.db = s.db.performAll (request? files line).toList := by
  rw [step_eq_perform, perform_db, requestOf?_ofLine]

theorem step_history (line : String) (s : Session) :
    (s.step files line).2.history = s.history.add line := by
  rw [step_eq_perform, perform_history]

theorem run_cons_of_ends {line : String} (h : endsSession line = true) (rest : List String)
    (s : Session) : (s.run files (line :: rest)).2 = (s.step files line).2 := by
  simp only [run, (ofLine_eq_exit_iff line).mpr h]

theorem run_cons {line : String} (h : endsSession line = false) (rest : List String)
    (s : Session) :
    (s.run files (line :: rest)).2 = ((s.step files line).2.run files rest).2 := by
  have hline : Command.ofLine line ≠ .exit := by simp [ofLine_eq_exit_iff, h]
  simp only [run]

/-- A session leaves what the executed lines leave, one step after the other. -/
theorem run_eq_foldl (lines : List String) : ∀ s : Session,
    (s.run files lines).2 = (executed lines).foldl (fun s line => (s.step files line).2) s := by
  induction lines with
  | nil => exact fun s => rfl
  | cons line rest ih =>
    intro s
    cases h : endsSession line with
    | true => rw [run_cons_of_ends h, executed_cons_of_ends h, List.foldl_cons, List.foldl_nil]
    | false => rw [run_cons h, executed_cons h, List.foldl_cons, ih]

/-- The database takes no notice of the history and the view, only of the requests. -/
theorem foldl_step_db (lines : List String) : ∀ s : Session,
    (lines.foldl (fun s line => (s.step files line).2) s).db =
      s.db.performAll (lines.filterMap (request? files)) := by
  induction lines with
  | nil => exact fun s => rfl
  | cons line rest ih =>
    intro s
    rw [List.foldl_cons, ih, step_db]
    -- a line without a request drops out on both sides
    cases hrequest : request? files line with
    | none => rw [List.filterMap_cons_none hrequest]; rfl
    | some request => rw [List.filterMap_cons_some hrequest]; rfl

theorem foldl_step_history (lines : List String) : ∀ s : Session,
    (lines.foldl (fun s line => (s.step files line).2) s).history =
      lines.foldl (fun h line => h.add line) s.history := by
  induction lines with
  | nil => exact fun s => rfl
  | cons line rest ih =>
    intro s
    rw [List.foldl_cons, ih, step_history, List.foldl_cons]

end Session

namespace CommandLine

def formerCommands (files : Files) : List String :=
  match files historyFile with
  | .ok content => History.linesOfFile content
  | .error _ => []

def keptCommands (files : Files) (lines : List String) : List String :=
  (History.commandsOf (Session.executed lines)).foldl History.keep
    ((formerCommands files).rtake 1000)

theorem startSession_holds (files : Files) (view : View) (db : Database) :
    (startSession files view db).history.Holds 1000
      (History.newest 1000 (formerCommands files)) := by
  simp only [startSession, formerCommands]
  cases files historyFile with
  | ok content => exact History.holds_load 1000 content
  | error fault => exact History.holds_empty 1000

/-- A session is a fold over its lines. From any database, any files and any lines, the executed
lines alone decide what is left: the database is that of their requests one after the other,
failed or not, and the history file has the newest thousand of the commands kept. Lines are
trimmed before they run, which a query does not notice unless the white space around it is foreign
to queries. The file is written wherever the program runs a session. -/
theorem session_eq_fold (files : Files) (view : View) (db : Database) (lines : List String) :
    let ended := ((startSession files view db).run files lines).2
    let saved := "\n".intercalate ((keptCommands files lines).rtake 1000) ++ "\n"
    ended.db = db.performAll ((Session.executed lines).filterMap (Session.request? files)) ∧
      (∀ line, (∀ c ∈ line.toList, Text.isWhiteSpace c = true → isBlank c = true) →
        ∀ db : Database, db.run (Text.trim line) = db.run line) ∧
      ended.history.fileText = saved ∧
      ∀ source input colors (o : Options), o.command = none → openData source files o = .ok db →
        Text.lines input = lines → (run source files input colors o).history = some saved := by
  have hsaved (view : View) :
      ((startSession files view db).run files lines).2.history.fileText =
        "\n".intercalate ((keptCommands files lines).rtake 1000) ++ "\n" := by
    -- the history of the whole session is that of its executed lines
    have hholds := (startSession_holds files view db).foldl_add (by decide)
      (Session.executed lines)
    rw [Session.run_eq_foldl, Session.foldl_step_history, History.fileText, hholds.commands_eq]
    rfl
  refine ⟨?_, fun line => Database.run_trim, hsaved view, ?_⟩
  · rw [Session.run_eq_foldl, Session.foldl_step_db]
    rfl
  · intro source input colors o hcommand hopen hlines
    subst hlines
    simp only [run, hopen, hcommand, runSession, Option.some.injEq]
    exact hsaved (viewOf colors o)

/-- Behind the command of a former session come a query that fails, a file that is loaded, one that
is not valid, a further query, and the end, behind which nothing is executed. -/
theorem session_eq_fold_loaded :
    let files : Files := fun path =>
      if path = "t.json" then .ok "\x7b\"t\": [\x7b\"id\": true\x7d]\x7d"
      else if path = "x.json" then .ok "[" else .ok ".tables\n \n"
    let input := "r.table('t')\n.load t.json\n .load x.json\n\n" ++
      "r.table('t').insert(\x7bid: false\x7d)\n.exit now\nr.table('t').delete()\n"
    ∀ source,
      let view := viewOf false {}
      let ended := ((startSession files view (.empty source)).run files (Text.lines input)).2
      ((Database.empty source).run "r.table('t')").1 = .error (.tableNotFound "t") ∧
        ended.db.rows "t" = .ok [.object [("id", .bool true)], .object [("id", .bool false)]] ∧
        (run source files input false {}).history =
          some (".tables\nr.table('t')\n.load t.json\n.load x.json\n" ++
            "r.table('t').insert(\x7bid: false\x7d)\n.exit now\n") := by
  intro files input source view ended
  obtain ⟨hdb, -, -, hfile⟩ := session_eq_fold files view (.empty source) (Text.lines input)
  have hexecuted : Session.executed (Text.lines input) =
      ["r.table('t')", ".load t.json", " .load x.json", "",
        "r.table('t').insert(\x7bid: false\x7d)", ".exit now"] := by
    decide +kernel
  have hrequests : (Session.executed (Text.lines input)).filterMap (Session.request? files) =
      [.query "r.table('t')", .init (.object [("t", .array [.object [("id", .bool true)]])]),
        .query "r.table('t').insert(\x7bid: false\x7d)"] := by
    rw [hexecuted]
    cbv
  have hkept : "\n".intercalate ((keptCommands files (Text.lines input)).rtake 1000) ++ "\n" =
      ".tables\nr.table('t')\n.load t.json\n.load x.json\n" ++
        "r.table('t').insert(\x7bid: false\x7d)\n.exit now\n" := by
    rw [keptCommands, hexecuted]
    decide +kernel
  refine ⟨by cbv, ?_, ?_⟩
  · rw [hdb, hrequests]
    cbv
  · exact (hfile source input false {} rfl rfl rfl).trans (congrArg some hkept)

end CommandLine

end TableQuery
