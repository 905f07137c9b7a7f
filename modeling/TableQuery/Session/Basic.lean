import TableQuery.Database
import TableQuery.Session.History
import TableQuery.View.Basic

namespace TableQuery

inductive Failure where
  | query (e : Error)
  | data (e : Error)
  | unknownFormat (name : String)
  | unknownCommand (command : String)
  | usage (text : String)
  deriving DecidableEq, Repr

namespace Failure

def message : Failure → String
  | query e => "Erreur de requête: " ++ e.message
  | data e => e.message
  | unknownFormat name => "Format inconnu: " ++ name
  | unknownCommand command => "Commande inconnue: " ++ command
  | usage text => "Usage: " ++ text

def chain : Failure → List String
  | query e => [(query e).message, e.message]
  | f => [f.message]

end Failure

inductive Command where
  | blank
  | query (text : String)
  | help
  | exit
  | tables
  | describe (action : Option String)
  | load (path : Option String)
  | format (name : Option String)
  | history (pattern : Option String)
  | unknown (command : String)
  deriving DecidableEq, Repr

namespace Command

def ofWords (command : String) : List String → Command
  | "help" :: _ => help
  | "exit" :: _ | "quit" :: _ => exit
  | "tables" :: _ => tables
  | "describe" :: rest => describe rest.head?
  | "load" :: rest => load rest.head?
  | "format" :: rest => format rest.head?
  | "history" :: rest => history rest.head?
  | _ => unknown command

def ofLine (line : String) : Command :=
  let text := Text.trim line
  match text.toList with
  | [] => blank
  | '.' :: rest => ofWords (String.ofList rest) (Text.words (String.ofList rest))
  | _ => query text

end Command

def showQuery (view : View) (text : String) (db : Database) :
    Except Failure (List String) × Database :=
  let (result, db) := db.run text
  (match result with
  | .ok v => .ok [view.value v]
  | .error e => .error (.query e), db)

def showTables (view : View) (db : Database) : List String :=
  let tables := db.store.sorted.map fun (name, rows) => (name, rows.length)
  if tables.isEmpty then [view.notice .info "Aucune table chargée"] else [view.tables tables]

def describeAction (action : String) : Except Error ActionLine := do
  let d ← Registry.builtin.describe action
  return ⟨action, d.arity, d.type⟩

/-- Shows an action, or all in the order of their names. -/
def showActions (view : View) (action : Option String) : Except Failure (List String) :=
  let names := match action with
    | some name => [name]
    | none => Registry.builtin.names
  match names.mapM describeAction with
  | .ok lines => .ok [view.actions lines]
  | .error e => .error (.data e)

def helpLines : List String := [
  "Commandes disponibles:",
  "  .help                     Affiche cette aide",
  "  .exit, .quit              Quitte le CLI",
  "  .tables                   Liste les tables et leur nombre de lignes",
  "  .describe [action]        Décrit une action, ou toutes les actions",
  "  .load <fichier>           Remplace les tables par celles d'un fichier JSON",
  "  .format <text|json|table> Définit le format de sortie",
  "  .history [motif]          Affiche l'historique des commandes (filtré par motif optionnel)",
  "",
  "Toute autre entrée est traitée comme une requête, par exemple:",
  "  r.table(\"users\").get(1).update(\x7bage: 23\x7d)"]

structure Session where
  db : Database
  view : View
  history : History

namespace Session

def load (files : Files) (path : String) (s : Session) : Except Failure (List String) × Session :=
  match (readFixture files path).bind fun fixture => s.db.init fixture with
  | .ok db =>
    let count := db.tableNames.length
    (.ok [s.view.notice .success s!"{count} table(s) chargée(s) depuis {path}"], { s with db })
  | .error e => (.error (.data e), s)

def setFormat (name : String) (s : Session) : Except Failure (List String) × Session :=
  match Format.ofName? name with
  | some format =>
    let s := { s with view := { s.view with format } }
    (.ok [s.view.notice .success ("Format défini à " ++ name)], s)
  | none => (.error (.unknownFormat name), s)

def historyLines (pattern : Option String) (s : Session) : List String :=
  let commands := match pattern with
    | some pattern => s.history.search pattern
    | none => s.history.commands
  if commands.isEmpty then ["Aucune commande dans l'historique."]
  else commands.zipIdx.map fun (command, i) => s!"{i + 1}: {command}"

def perform (files : Files) (s : Session) : Command → Except Failure (List String) × Session
  | .blank => (.ok [], s)
  | .query text =>
    let (result, db) := showQuery s.view text s.db
    (result, { s with db })
  | .help => (.ok helpLines, s)
  | .exit => (.ok ["Au revoir !"], s)
  | .tables => (.ok (showTables s.view s.db), s)
  | .describe action => (showActions s.view action, s)
  | .load none => (.error (.usage ".load <fichier>"), s)
  | .load (some path) => s.load files path
  | .format none => (.error (.usage ".format <text|json|table>"), s)
  | .format (some name) => s.setFormat name
  | .history pattern => (.ok (s.historyLines pattern), s)
  | .unknown command => (.error (.unknownCommand command), s)

def step (files : Files) (line : String) (s : Session) : List String × Session :=
  let s := { s with history := s.history.add line }
  match s.perform files (.ofLine line) with
  | (.ok lines, s) => (lines, s)
  | (.error f, s) => ([s.view.notice .error f.message], s)

def greeting (s : Session) : List String := [
  s.view.notice .info "Tabletop CLI - Mode interactif",
  s.view.notice .info "Tapez .help pour l'aide ou .exit pour quitter"]

def farewell : String := "Fin de l'entrée (Ctrl-D)"

/-- Performs lines up to the first that ends the session, or to the end of the input. -/
def run (files : Files) : List String → Session → List String × Session
  | [], s => ([farewell], s)
  | line :: rest, s =>
    let (printed, s) := s.step files line
    match Command.ofLine line with
    | .exit => (printed, s)
    | _ =>
      let (more, s) := s.run files rest
      (printed ++ more, s)

end Session

end TableQuery
