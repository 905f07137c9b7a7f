import TableQuery.Files
import TableQuery.Term.Evaluation
import TableQuery.Term.Reader

namespace TableQuery

def readFixture (files : Files) (path : String) : Except Error Value :=
  match files path with
  | .error fault => .error (.fixture (.unreadable path fault.reason))
  | .ok content =>
    match Value.read? content with
    | some v => .ok v
    | none => .error (.fixture (.notJson path))

structure Database where
  state : State

namespace Database

def store (db : Database) : Store := db.state.store

def withStore (db : Database) (store : Store) : Database := ⟨{ db.state with store }⟩

/-- A database over a store, with no key drawn yet. -/
def ofStore (source : KeySource) (store : Store) : Database := ⟨⟨store, source, 0⟩⟩

def empty (source : KeySource) : Database := ofStore source .empty

def ofFixture (source : KeySource) (fixture : Value) : Except Error Database :=
  return ofStore source (← Store.ofFixture fixture)

def openFixture (source : KeySource) (files : Files) (path : String) : Except Error Database := do
  ofFixture source (← readFixture files path)

/-- Replaces all tables by those of a fixture; a faulty fixture replaces none. -/
def init (fixture : Value) (db : Database) : Except Error Database :=
  return db.withStore (← Store.ofFixture fixture)

def create (name : String) (db : Database) : Except Error Database :=
  return db.withStore (← db.store.create name)

def drop (name : String) (db : Database) : Except Error Database :=
  return db.withStore (← db.store.drop name)

/-- Runs a term in a language with the given actions. -/
def runTermIn (registry : Registry) (t : Term) (db : Database) : Except Error Value × Database :=
  let (result, state) := (t.runIn registry none).runFrom db.state
  (result, ⟨state⟩)

def runIn (registry : Registry) (query : String) (db : Database) :
    Except Error Value × Database :=
  match Term.parse query with
  | .ok t => db.runTermIn registry t
  | .error e => (.error e, db)

def runTerm (t : Term) (db : Database) : Except Error Value × Database := db.runTermIn .builtin t

def run (query : String) (db : Database) : Except Error Value × Database := db.runIn .builtin query

def rows (name : String) (db : Database) : Except Error (List Value) := db.store.rows name

def tableNames (db : Database) : List String := db.store.names

inductive Request where
  | create (name : String)
  | drop (name : String)
  | init (fixture : Value)
  | query (text : String)
  | term (t : Term)
  deriving Repr

/-- A change of a database that fails as a whole. -/
def attempt (change : Database → Except Error Database) (db : Database) :
    Except Error Value × Database :=
  match change db with
  | .ok db => (.ok .null, db)
  | .error e => (.error e, db)

/-- Answers a request in a language with the given actions. -/
def performIn (registry : Registry) (db : Database) : Request → Except Error Value × Database
  | .create name => db.attempt (create name)
  | .drop name => db.attempt (drop name)
  | .init fixture => db.attempt (init fixture)
  | .query text => db.runIn registry text
  | .term t => db.runTermIn registry t

/-- The database after some requests, whether they fail or not. -/
def performAllIn (registry : Registry) (db : Database) (requests : List Request) : Database :=
  requests.foldl (fun db request => (db.performIn registry request).2) db

def perform (db : Database) (request : Request) : Except Error Value × Database :=
  db.performIn .builtin request

def performAll (db : Database) (requests : List Request) : Database :=
  db.performAllIn .builtin requests

end Database

end TableQuery
