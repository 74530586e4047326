import ScriptKernel.Program.Outline
import ScriptKernel.Shell.Dialogue
import ScriptKernel.Shell.Job

/-!
Commands as functions of the files they see. A command ends with an outcome, or
it opens a dialogue, which takes lines until the input ends.
-/

namespace ScriptKernel

structure Outcome where
  console : Console := {}
  failed : Bool := false
  /-- What was written, by path. -/
  written : List (String × List UInt8) := []
deriving Repr, DecidableEq

inductive Response where
  | done (outcome : Outcome)
  | dialogue (d : Dialogue)

structure Surroundings where
  files : Files
  /-- The directory of the history. -/
  home : String
  clock : Clock := {}

namespace Shell

def printed (text : String) : Outcome := { console := { out := text } }

def failing (line : CommandLine) (console : Console) (message : String) : Outcome where
  console := if line.trace then console else console.warn (message ++ "\n")
  failed := true

def usage : String :=
  Text.join "\n" [
    "NAME:",
    "   lumen - registry-driven interpreter",
    "",
    "USAGE:",
    "   lumen [--log-level LEVEL] [--trace] COMMAND [FLAGS] [ARGUMENTS]",
    "",
    "COMMANDS:",
    "   run FILE       run a source file",
    "   lex FILE       print the lexemes the parser sees",
    "   ast FILE       dump the parsed program",
    "   repl           read, evaluate and print interactively",
    "   init PACKAGE   create a lumen.yaml in the current directory",
    "   languages      list the available languages",
    ""]

def misused (fault : FlagFault) : Outcome where
  console := { out := "Incorrect Usage: " ++ fault.message ++ "\n\n" ++ usage }
  failed := true

def languages : String :=
  String.join (Language.all.map fun language =>
    language.name ++ "\t" ++ Text.join " " language.extensions ++ "\n")

def lexemeLine (l : Lexeme) : String :=
  Text.decimal l.place.line ++ ":" ++ Text.decimal l.place.column ++ "\t" ++
    (if l.synthetic then l.text else Text.quote l.text) ++ "\n"

def runSource (line : CommandLine) (session : Session) (source : List UInt8) : Outcome :=
  match session.parse source with
  | .error e => failing line {} e.render
  | .ok program =>
    match session.exec session.machine program with
    | (.ok _, machine) => { console := machine.console }
    | (.error h, machine) => failing line machine.console h.render

def lexSource (line : CommandLine) (raw : Bool) (session : Session) (source : List UInt8) :
    Outcome :=
  match if raw then session.lex source else session.tokens source with
  | .error e => failing line {} e.render
  | .ok lexemes => printed (String.join (lexemes.map lexemeLine))

def outlineSource (line : CommandLine) (session : Session) (source : List UInt8) : Outcome :=
  match session.parse source with
  | .error e => failing line {} e.render
  | .ok program => printed ((Outline.ofProgram program).render "" ++ "\n")

def initialise (line : CommandLine) (files : Files) (language package : String) : Outcome :=
  match (do
    let settings ← Job.newSettings language package
    let (path, _) ← (Project.create files "." settings).mapError .project
    return (path, settings) : Except JobFault (String × Settings)) with
  | .error fault => failing line {} fault.message
  | .ok (path, settings) =>
    { printed ("wrote " ++ path ++ "\n") with
      written := [(path, Text.Utf8.encode settings.render)] }

def historyPath (home : String) : String := Path.join home ".lumen_history"

def openDialogue (around : Surroundings) (line : CommandLine) (wishes : Wishes) : Response :=
  match Job.prepareDialogue around.files around.clock line wishes with
  | .error fault => .done (failing line {} fault.message)
  | .ok session =>
    let history := match around.files.read (historyPath around.home) with
      | .ok bytes => History.ofBytes bytes
      | .error _ => {}
    .dialogue (.start session history)

def withSource (around : Surroundings) (line : CommandLine) (wishes : Wishes)
    (act : Session → List UInt8 → Outcome) : Outcome :=
  match Job.prepare around.files around.clock line wishes with
  | .error fault => failing line {} fault.message
  | .ok (session, source) => act session source

def perform (around : Surroundings) (line : CommandLine) : Response :=
  match line.command with
  | .version => .done (printed ("lumen version " ++ version ++ "\n"))
  | .overview | .help => .done (printed usage)
  | .languages => .done (printed languages)
  | .run wishes => .done (withSource around line wishes (runSource line))
  | .lex raw wishes => .done (withSource around line wishes (lexSource line raw))
  | .ast wishes => .done (withSource around line wishes (outlineSource line))
  | .repl wishes => openDialogue around line wishes
  | .init language package => .done (initialise line around.files language package)
  | .unknown name => .done (failing line {} ("No help topic for '" ++ name ++ "'"))
  | .misused fault => .done (misused fault)

def isUnconditional : Command → Bool
  | .version | .overview => true
  | _ => false

def respond (around : Surroundings) (args : List String) : Response :=
  match CommandLine.parse args with
  | .error fault => .done (misused fault)
  | .ok line =>
    if isUnconditional line.command then perform around line
    else match Job.checkLogLevel (line.logLevel.getD "WARNING") with
      | .error fault => .done (failing line {} fault.message)
      | .ok () => perform around line

def consulted (workingDirectory home : String) (command : Command) : List String :=
  let projectOf := Project.candidates workingDirectory
  match command with
  | .run wishes | .lex _ wishes | .ast wishes =>
    wishes.path :: projectOf (Path.parent wishes.path)
  | .repl _ => historyPath home :: projectOf "."
  | .init _ _ => [Project.fileName]
  | _ => []

def close (around : Surroundings) (d : Dialogue) : List (String × List UInt8) :=
  let path := historyPath around.home
  match around.files.look path with
  | .ok (_, .directory) => []
  | _ => [(path, Text.Utf8.encode d.history.render)]

def inputLines (input : String) : List String :=
  (History.linesOf (Text.Utf8.encode input)).map fun line => String.ofList (Text.Utf8.lossy line)

def run (around : Surroundings) (args : List String) (input : String) : Outcome :=
  match respond around args with
  | .done outcome => outcome
  | .dialogue d =>
    let (told, last) := d.feedAll (inputLines input)
    { console := { told with out := d.greeting version ++ told.out ++ "\n" }
      written := close around last }

end Shell

end ScriptKernel
