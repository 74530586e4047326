import ScriptKernel.Project.Locate
import ScriptKernel.Session.Basic
import ScriptKernel.Shell.CommandLine
import ScriptKernel.Source.Encoding

/-!
From the wishes on a command line to a session and its source. Where both the
command line and the project say something, the command line counts.
-/

namespace ScriptKernel

inductive JobFault where
  | noSource
  | noPackage
  | unknownLogLevel (name : String)
  | unknownLanguage (name : String)
  /-- As the last one, with the languages there are. -/
  | noSuchLanguage (name : String)
  | languageUnclear (path : String)
  | unknownEncoding (name : String)
  | project (fault : Project.Fault)
  | file (fault : FileFault)
deriving Repr, DecidableEq

def JobFault.message : JobFault → String
  | .noSource => "no source file provided"
  | .noPackage => "no package name provided"
  | .unknownLogLevel name => "unknown log level " ++ Text.quote name
  | .unknownLanguage name => "unknown language " ++ Text.quote name
  | .noSuchLanguage name =>
    "unknown language " ++ Text.quote name ++ " (have [" ++ Text.join " " Language.names ++ "])"
  | .languageUnclear path => "cannot tell the language of " ++ path ++ "; use --lang"
  | .unknownEncoding name => "unknown source encoding " ++ Text.quote name
  | .project fault => fault.message
  | .file fault => fault.message

namespace Job

def logLevels : List String := [
  "CRITICAL", "C", "ERROR", "0", "E", "WARNING", "1", "W", "NOTICE", "2", "N", "INFO", "3", "I",
  "DEBUG", "4", "D", "TRACE", "5", "T"]

def checkLogLevel (name : String) : Except JobFault Unit :=
  if Text.asciiUpper name ∈ logLevels then .ok () else .error (.unknownLogLevel name)

def pickLanguage (path name : String) : Except JobFault Language :=
  if name = "" then
    match Language.forFile? path with
    | some language => .ok language
    | none => .error (.languageUnclear path)
  else match Language.find? name with
    | some language => .ok language
    | none => .error (.noSuchLanguage name)

def decode (bytes : List UInt8) (encoding : String) : Except JobFault (List UInt8) :=
  match Encoding.find? encoding with
  | some found => .ok (found.decode bytes)
  | none => .error (.unknownEncoding (Encoding.normalName encoding))

def loadSource (files : Files) (path encoding : String) : Except JobFault (List UInt8) := do
  let bytes ← (files.read path).mapError .file
  decode bytes encoding

/-- The options of a session. A log level given on the command line leaves that
of the project unread. -/
def options (line : CommandLine) (wishes : Wishes) (settings : Settings) (file : String)
    (clock : Clock) : Except JobFault Options := do
  if settings.logLevel ≠ "" ∧ line.logLevel.isNone then checkLogLevel settings.logLevel
  return {
    file := file
    maxDepth := wishes.maxDepth.getD settings.maxDepth
    memoize := wishes.memoize.getD settings.memoize
    deny := wishes.deny.getD settings.deny
    clock := clock }

def prepare (files : Files) (clock : Clock) (line : CommandLine) (wishes : Wishes) :
    Except JobFault (Session × List UInt8) := do
  if wishes.path = "" then throw .noSource
  let settings ← (Project.nearest files (Path.parent wishes.path)).mapError .project
  let language ← pickLanguage wishes.path (wishes.language.getD settings.language)
  let options ← options line wishes settings wishes.path clock
  let source ← loadSource files wishes.path (wishes.encoding.getD settings.encoding)
  return (⟨language, options⟩, source)

def prepareDialogue (files : Files) (clock : Clock) (line : CommandLine) (wishes : Wishes) :
    Except JobFault Session := do
  let name := wishes.language.getD ""
  let name := if name = "" then "lumen" else name
  match Language.find? name with
  | none => throw (.unknownLanguage name)
  | some language =>
    let settings ← (Project.nearest files ".").mapError .project
    let options ← options line wishes settings "<repl>" clock
    return ⟨language, options⟩

def newSettings (language package : String) : Except JobFault Settings := do
  if package = "" then throw .noPackage
  let settings : Settings :=
    { package := package, language := language, requires := "^" ++ version }
  settings.check.mapError fun fault => .project (.settings fault)
  return settings

end Job

end ScriptKernel
