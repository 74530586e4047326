import ScriptKernel.Shell.Flags

/-!
Command lines: flags that hold for all commands, the name of a command, its own
flags, its arguments.
-/

namespace ScriptKernel

/-- What a command line says about a source and how to run it. What is not said
is left to the project. -/
structure Wishes where
  path : String
  language : Option String
  encoding : Option String
  memoize : Option Bool
  maxDepth : Option Int
  deny : Option (List String)
deriving Repr, DecidableEq

inductive Command where
  | version
  | overview
  | help
  | languages
  | run (wishes : Wishes)
  | lex (raw : Bool) (wishes : Wishes)
  | ast (wishes : Wishes)
  | repl (wishes : Wishes)
  | init (language package : String)
  | unknown (name : String)
  | misused (fault : FlagFault)
deriving Repr, DecidableEq

structure CommandLine where
  logLevel : Option String
  /-- Errors are traced and not told in words. -/
  trace : Bool
  command : Command
deriving Repr, DecidableEq

namespace CommandLine

def helpFlags : FlagKinds := [("help", .switch), ("h", .switch)]

def commonFlags : FlagKinds :=
  [("log-level", .text), ("trace", .switch), ("version", .switch), ("v", .switch)] ++ helpFlags

def sourceFlags : FlagKinds :=
  [("lang", .text), ("encoding", .text), ("memoize", .switch), ("max-depth", .whole),
    ("deny", .texts)] ++ helpFlags

def wishes (flags : Flags) (args : List String) : Wishes where
  path := args.headD ""
  language := flags.text? "lang"
  encoding := flags.text? "encoding"
  memoize := flags.switchGiven? "memoize"
  maxDepth := flags.whole? "max-depth"
  deny := flags.texts? "deny"

def reading (kinds : FlagKinds) (args : List String) (make : Flags → List String → Command) :
    Command :=
  match Flags.parse kinds [] args with
  | .error fault => .misused fault
  | .ok (flags, args) =>
    if flags.isOn "help" || flags.isOn "h" || args.headD "" ∈ ["help", "h"] then .help
    else make flags args

def commandOf : List String → Command
  | [] => .help
  | "run" :: args =>
    reading (("watch", .switch) :: sourceFlags) args fun flags args => .run (wishes flags args)
  | "lex" :: args =>
    reading (("raw", .switch) :: sourceFlags) args fun flags args =>
      .lex (flags.isOn "raw") (wishes flags args)
  | "ast" :: args => reading sourceFlags args fun flags args => .ast (wishes flags args)
  | "repl" :: args => reading sourceFlags args fun flags args => .repl (wishes flags args)
  | "init" :: args =>
    reading (("lang", .text) :: helpFlags) args fun flags args =>
      .init ((flags.text? "lang").getD "lumen") (args.headD "")
  | "languages" :: args => reading helpFlags args fun _ _ => .languages
  | name :: _ => if name ∈ ["", "help", "h"] then .help else .unknown name

def parse (args : List String) : Except FlagFault CommandLine := do
  let (flags, args) ← Flags.parse commonFlags [] args
  let command :=
    if flags.isOn "help" || flags.isOn "h" then .overview
    else if flags.isOn "version" || flags.isOn "v" then .version
    else commandOf args
  return ⟨flags.text? "log-level", flags.isOn "trace", command⟩

end CommandLine

end ScriptKernel
