namespace TableQuery

inductive FileFault where
  | missing
  | notFolder
  | isFolder
  | nameTooLong
  | hasNul
  | other (reason : String)
  deriving DecidableEq, Repr

def FileFault.reason : FileFault → String
  | .missing => "No such file or directory (os error 2)"
  | .notFolder => "Not a directory (os error 20)"
  | .isFolder => "Is a directory (os error 21)"
  | .nameTooLong => "File name too long (os error 36)"
  | .hasNul => "file name contained an unexpected NUL byte"
  | .other reason => reason

abbrev Files := String → Except FileFault String

namespace Files

def maxPath : Nat := 4095

def maxName : Nat := 255

inductive Entry where
  | file (content : String)
  | folder (entries : List (String × Entry))
  deriving Repr

/-- What some names lead to from an entry, given the folders around it from the innermost one. The
empty name stays in a folder, as it stands between two slashes and behind a last one. -/
def Entry.follow : List String → List Entry → Entry → Except FileFault Entry
  | [], _, entry => .ok entry
  | _ :: _, _, .file _ => .error .notFolder
  | name :: names, around, here@(.folder entries) =>
    if name = "" || name = "." then here.follow names around
    else if name = ".." then
      match around with
      | [] => here.follow names []
      | outer :: around => outer.follow names around
    else if maxName < name.utf8ByteSize then .error .nameTooLong
    else match entries.lookup name with
      | none => .error .missing
      | some entry => entry.follow names (here :: around)

/-- The folders that stand below the root of every system and are not looked into. -/
def systemFolders : List String :=
  ["bin", "boot", "home", "lib", "media", "mnt", "opt", "proc", "root", "run", "sbin", "srv",
    "sys", "tmp", "usr", "var"]

/-- What every system has besides the folder of the program: the null device, which is an empty
file, the list of users, and some folders. -/
def root : Entry := .folder (
  ("dev", .folder [("null", .file "")]) ::
  ("etc", .folder [("passwd", .file "root:x:0:0:root:/root:/bin/sh\n")]) ::
  systemFolders.map fun name => (name, .folder []))

/-- What a path leads to from a folder; what is around the folder is not known. -/
def find (here : Entry) (path : String) : Except FileFault Entry :=
  if path.contains '\x00' then .error .hasNul
  else if path = "" then .error .missing
  else if maxPath < path.utf8ByteSize then .error .nameTooLong
  else if path.startsWith "/" then root.follow (path.splitOn "/") []
  else here.follow (path.splitOn "/") [.folder [], root]

def ofList (contents : List (String × String)) : Files := fun path => do
  match ← find (.folder (contents.map fun (name, content) => (name, .file content))) path with
  | .file content => .ok content
  | .folder _ => .error .isFolder

end Files

end TableQuery
