import ScriptKernel.Text.Pieces

/-!
Paths as texts with slashes. Cleaning takes away what does not change where a
path leads as long as no directory on it is a link.
-/

namespace ScriptKernel.Path

def names (path : String) : List String :=
  (Text.splitAt '/' path.toList).map String.ofList

def isAbsolute (path : String) : Bool := Text.startsWith path "/"

/-- Takes one more name of a path; what was taken before is in reverse. The
parent of the root is the root. -/
def step (rooted : Bool) (taken : List String) (name : String) : List String :=
  if name = "" ∨ name = "." then taken
  else if name = ".." then
    match taken with
    | [] => if rooted then [] else [".."]
    | last :: before => if last = ".." then ".." :: taken else before
  else name :: taken

def clean (path : String) : String :=
  let rooted := isAbsolute path
  let kept := ((names path).foldl (step rooted) []).reverse
  let text := Text.join "/" kept
  if rooted then "/" ++ text else if text = "" then "." else text

def join (first second : String) : String :=
  if first = "" then if second = "" then "" else clean second
  else if second = "" then clean first
  else clean (first ++ "/" ++ second)

def parent (path : String) : String :=
  clean (String.ofList (path.toList.reverse.dropWhile (· ≠ '/')).reverse)

def absolute (workingDirectory path : String) : String :=
  if isAbsolute path then clean path else join workingDirectory path

def ancestors (directory : String) : List String :=
  climb directory.length directory
where
  climb : Nat → String → List String
    | 0, directory => [directory]
    | n + 1, directory =>
      let outer := parent directory
      if outer = directory then [directory] else directory :: climb n outer

def stages (path : String) : List String :=
  let names := names path
  (List.range names.length).map fun i => Text.join "/" (names.take (i + 1))

end ScriptKernel.Path
