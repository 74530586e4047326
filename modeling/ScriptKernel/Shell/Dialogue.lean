import ScriptKernel.Session.Repl

/-!
Dialogues: entries of one or more lines, read and evaluated on one machine, and
the history that they leave.
-/

namespace ScriptKernel

/-- The entries of earlier dialogues and of this one, the last first. -/
structure History where
  entries : List String := []
deriving Repr, DecidableEq

namespace History

def limit : Nat := 1000

def longestLine : Nat := 4096

def push (h : History) (entry : String) : History := ⟨(entry :: h.entries).take limit⟩

def add (h : History) (entry : String) : History :=
  if h.entries.head? = some entry then h else h.push entry

def splitLines (text : List UInt8) : List (List UInt8) :=
  text.foldr (fun byte lines =>
    if byte = 10 then [] :: lines
    else match lines with
      | line :: rest => (byte :: line) :: rest
      | [] => [[byte]]) [[]]

/-- The lines of a text. One without a line break counts only at the end and
only if there is something on it; a carriage return before a break belongs to
the break. -/
def linesOf (text : List UInt8) : List (List UInt8) :=
  let lines := splitLines text
  let ended := lines.dropLast.map fun line =>
    if line.getLast? = some 13 then line.dropLast else line
  match lines.getLast? with
  | some (byte :: rest) => ended ++ [byte :: rest]
  | _ => ended

/-- Reads a history up to the first line that is too long or is no text. -/
def ofBytes (bytes : List UInt8) : History :=
  let lines := (linesOf bytes).takeWhile fun line =>
    line.length < longestLine && (Text.Utf8.decode line).2.isEmpty
  lines.foldl (fun h line => h.push (String.ofList (Text.Utf8.lossy line))) {}

def render (h : History) : String :=
  String.join (h.entries.reverse.map (· ++ "\n"))

end History

structure Dialogue where
  session : Session
  machine : Machine
  history : History
  /-- The lines of an entry that is not complete. -/
  pending : String := ""

namespace Dialogue

def start (session : Session) (history : History) : Dialogue :=
  { session := session, machine := session.machine, history := history }

def greeting (d : Dialogue) (version : String) : String :=
  "lumen " ++ version ++ " (" ++ d.session.language.name ++ "). Ctrl+D exits.\n"

def asLine (entry : String) : String :=
  (Text.trim entry).map fun c => if c = '\n' then ' ' else c

def evaluate (d : Dialogue) (entry : String) : Console × Dialogue :=
  if Text.trim entry = "" then ({}, d)
  else
    let (failure, machine) :=
      Repl.eval d.session d.machine.clearConsole (Text.Utf8.encode entry)
    let console := machine.console
    let told := match failure with
      | none => console
      | some failure => { console with err := console.err ++ failure.render ++ "\n" }
    (told, { d with machine := machine, history := d.history.add (asLine entry) })

def feed (d : Dialogue) (line : String) : Console × Dialogue :=
  let entry := d.pending ++ line ++ "\n"
  if Repl.probe d.session entry then ({}, { d with pending := entry })
  else { d with pending := "" }.evaluate entry

def feedAll (d : Dialogue) (lines : List String) : Console × Dialogue :=
  lines.foldl (fun (told, d) line =>
    let (more, d) := feed d line
    ({ more with out := told.out ++ more.out, err := told.err ++ more.err }, d)) ({}, d)

end Dialogue

end ScriptKernel
