import ScriptKernel.Session.Basic
import ScriptKernel.Text.Blank

/-!
Reading and evaluating entry by entry. One machine serves all entries, and an
entry may take several lines.
-/

namespace ScriptKernel.Repl

/-- Whether a source is the start of a longer entry: parsing ran out of input,
or the first line opened a block. A blank line always ends the entry. -/
def needsMore (source : String) (error : Option String) : Bool :=
  if Text.endsWith source "\n\n" then false
  else if error.any (Text.contains · "end of input") then true
  else
    let first := (Text.lines source).headD ""
    Text.endsWith (Text.trim first) ":"

inductive Failure where
  | source (error : SourceError)
  | halt (h : Halt)

def Failure.render : Failure → String
  | .source error => error.render
  | .halt h => h.render

def probe (s : Session) (source : String) : Bool :=
  match s.parse (Text.Utf8.encode source) with
  | .ok _ => needsMore source none
  | .error e => needsMore source (some e.render)

def echo (m : Machine) (v : Value) : Option String :=
  if v = .absent ∨ v = m.setting.empty then none else some (m.state.heap.display v ++ "\n")

def eval (s : Session) (m : Machine) (source : List UInt8) : Option Failure × Machine :=
  match s.parse source with
  | .error e => (some (.source e), m)
  | .ok program =>
    match s.exec m program with
    | (.error h, m) => (some (.halt h), m)
    | (.ok v, m) =>
      match echo m v with
      | none => (none, m)
      | some text =>
        (none, { m with state := { m.state with console := m.state.console.print text } })

end ScriptKernel.Repl
