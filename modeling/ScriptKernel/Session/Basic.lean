import ScriptKernel.Session.Language
import ScriptKernel.Session.Load

/-!
Sessions: source text of one language under fixed options, from bytes to
lexemes, to a program, to a run.
-/

namespace ScriptKernel

structure Options where
  file : String := ""
  /-- The bound on nesting in a source; the usual one when not positive. -/
  maxDepth : Int := 0
  /-- The bound on active calls; the usual one when not positive. -/
  maxCallDepth : Int := 0
  memoize : Bool := false
  /-- Selectors of capabilities that are taken away. -/
  deny : List String := []
  /-- Further capabilities, with the text under which they record calls. -/
  recorded : List (Key × String) := []
  clock : Clock := {}
  host : Host := .usual clock

structure Session where
  language : Language
  options : Options

namespace Session

def lex (s : Session) (source : List UInt8) : Except LexError (List Lexeme) :=
  (Lexer.lex s.language.table source).mapError (LexError.inFile s.options.file)

def tokens (s : Session) (source : List UInt8) : Except LexError (List Lexeme) := do
  let lexemes ← s.lex source
  (s.language.layout.apply {} lexemes).mapError (LexError.inFile s.options.file)

def maxDepth (s : Session) : Int :=
  if 0 < s.options.maxDepth then s.options.maxDepth else 512

def parse (s : Session) (source : List UInt8) : Except SourceError (List Stmt) :=
  match s.tokens source with
  | .error e => .error (.lex e)
  | .ok tokens =>
    (s.language.grammar.parse (s.language.context tokens s.options.file s.maxDepth)
      tokens).mapError .parse

/-- The capabilities of a session: those built in and the host's own, less
what is denied. -/
def capabilities (s : Session) : Registry :=
  let dialect := s.language.dialect
  let all := s.options.recorded.foldl (fun r (key, label) => r.withRecorded dialect key label)
    (Registry.empty.withBuiltins dialect true true none)
  all.deny s.options.deny

def machine (s : Session) : Machine where
  setting :=
    { dialect := s.language.dialect
      capabilities := some s.capabilities
      host := s.options.host
      empty := s.language.dialect.empty
      maxCalls := if 0 < s.options.maxCallDepth then s.options.maxCallDepth else 2000 }
  state :=
    { scopes := { globals := s.language.globals }
      memo := some (({} : Memo).enable s.options.memoize) }

/-- Fuel beyond what any run that ends in reasonable time uses. -/
def fuel : Nat := 1000000000000

def exec (s : Session) (m : Machine) (program : List Stmt) : Except Halt Value × Machine :=
  let (program, m) := m.load program
  m.run (runProgram fuel s.language.policy program)

end Session

end ScriptKernel
