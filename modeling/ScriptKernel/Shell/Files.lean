import ScriptKernel.Shell.Path

/-!
The files a command sees, and what can go wrong with them. Directories are
there because of what is in them, or by themselves.
-/

namespace ScriptKernel

inductive Entry where
  | file (bytes : List UInt8)
  | directory
deriving Repr, DecidableEq

inductive FileProblem where
  | missing
  /-- The path goes through something that is no directory. -/
  | blocked
  | isDirectory
  /-- The path, or a name that is reached on it, has too many bytes. -/
  | tooLong
  /-- No path has a null character. -/
  | invalid
deriving Repr, DecidableEq

structure FileFault where
  path : String
  problem : FileProblem
deriving Repr, DecidableEq

/-- A directory is found out when it is read; all else when it is opened. -/
def FileFault.message (f : FileFault) : String :=
  match f.problem with
  | .missing => "open " ++ f.path ++ ": no such file or directory"
  | .blocked => "open " ++ f.path ++ ": not a directory"
  | .isDirectory => "read " ++ f.path ++ ": is a directory"
  | .tooLong => "open " ++ f.path ++ ": file name too long"
  | .invalid => "open " ++ f.path ++ ": invalid argument"

/-- Entries by their names from the root down, seen from a working directory. -/
structure Files where
  workingDirectory : String := "/"
  entries : List (List String × Entry) := []
deriving Repr, DecidableEq

namespace Files

def entry? (files : Files) (place : List String) : Option Entry :=
  match files.entries.lookup place with
  | some entry => some entry
  | none =>
    if place.isEmpty || files.entries.any fun (other, _) => place.isPrefixOf other then
      some .directory
    else none

def nameLimit : Nat := 255

def pathLimit : Nat := 4095

/-- Follows the names of a path one by one; a name leads on only from a
directory. -/
def follow (files : Files) : List String → List String → Except FileProblem (List String × Entry)
  | place, [] =>
    match files.entry? place with
    | some entry => .ok (place, entry)
    | none => .error .missing
  | place, name :: rest =>
    match files.entry? place with
    | none => .error .missing
    | some (.file _) => .error .blocked
    | some .directory =>
      if name = "" ∨ name = "." then follow files place rest
      else if name = ".." then follow files place.dropLast rest
      else if nameLimit < name.utf8ByteSize then .error .tooLong
      else follow files (place ++ [name]) rest

def place (path : String) : List String := (Path.names path).filter (· ≠ "")

def start (files : Files) (path : String) : List String :=
  if Path.isAbsolute path then [] else place files.workingDirectory

def look (files : Files) (path : String) : Except FileProblem (List String × Entry) :=
  if path.toList.contains (Char.ofNat 0) then .error .invalid
  else if path = "" then .error .missing
  else if pathLimit < path.utf8ByteSize then .error .tooLong
  else files.follow (files.start path) (Path.names path)

def exists? (files : Files) (path : String) : Bool := (files.look path).toBool

def read (files : Files) (path : String) : Except FileFault (List UInt8) :=
  match files.look path with
  | .ok (_, .file bytes) => .ok bytes
  | .ok (_, .directory) => .error ⟨path, .isDirectory⟩
  | .error problem => .error ⟨path, problem⟩

def write (files : Files) (path : String) (bytes : List UInt8) : Except FileFault Files :=
  let name := (Path.names path).getLastD ""
  match files.look (Path.parent path) with
  | .error problem => .error ⟨path, problem⟩
  | .ok (_, .file _) => .error ⟨path, .blocked⟩
  | .ok (place, .directory) =>
    let place := place ++ [name]
    .ok { files with
      entries := (place, .file bytes) :: files.entries.filter fun (other, _) => other ≠ place }

end Files

end ScriptKernel
