import ScriptKernel.Lumen.Grammar
import ScriptKernel.Machine.Eval
import ScriptKernel.MiniRust.Grammar
import ScriptKernel.Text.Case

/-!
The languages: how their sources are read and what their programs start with.
-/

namespace ScriptKernel

structure Language where
  name : String
  extensions : List String
  dialect : Dialect
  table : Table
  layout : Layout
  grammar : Grammar Expr Stmt
  /-- The context of a parse: the stream, the file name and the depth bound. -/
  context : List Lexeme → String → Int → Context
  policy : StrayPolicy
  /-- The names that are bound from the start. -/
  globals : Scope

namespace Language

def lumen : Language where
  name := "lumen"
  extensions := [".lm", ".lumen"]
  dialect := .lumen
  table := Lumen.table
  layout := Lumen.layout
  grammar := Lumen.grammar
  context := Lumen.context
  policy := .reject
  globals := [("len", .native 0 "len" 1 .length)]

def minirust : Language where
  name := "minirust"
  extensions := [".rs"]
  dialect := .minirust
  table := MiniRust.table
  layout := MiniRust.layout
  grammar := MiniRust.grammar
  context := MiniRust.context
  policy := .reject
  globals := []

def all : List Language := [lumen, minirust]

def names : List String := all.map (·.name)

def find? (name : String) : Option Language :=
  all.find? fun language => language.name == Text.lower name

/-- The part of a path from the last dot of its last element on. -/
def extension (path : String) : String :=
  let element := path.toList.reverse.takeWhile (· ≠ '/')
  match element.span (· ≠ '.') with
  | (ending, '.' :: _) => String.ofList ('.' :: ending.reverse)
  | _ => ""

def forFile? (path : String) : Option Language :=
  let ending := Text.lower (extension path)
  if ending = "" then none
  else all.find? fun language => language.extensions.contains ending

end Language

end ScriptKernel
