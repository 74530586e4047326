import ScriptKernel.Project.Settings
import ScriptKernel.Shell.Files

/-!
Project files among the files: the nearest one at or above a directory, reading
it, and making a new one.
-/

namespace ScriptKernel.Project

def fileName : String := "lumen.yaml"

inductive Fault where
  | file (fault : FileFault)
  | unreadable (path : String) (fault : Settings.Fault)
  | settings (fault : SettingsFault)
  | exists (path : String)
deriving Repr, DecidableEq

def Fault.message : Fault → String
  | .file fault => fault.message
  | .unreadable path fault => "error reading " ++ path ++ ": " ++ fault.message
  | .settings fault => fault.message
  | .exists path => path ++ " already exists"

def candidates (workingDirectory directory : String) : List String :=
  (Path.ancestors (Path.absolute workingDirectory directory)).map (Path.join · fileName)

def find? (files : Files) (directory : String) : Option String :=
  (candidates files.workingDirectory directory).find? files.exists?

def load (files : Files) (path : String) : Except Fault Settings := do
  let bytes ← (files.read path).mapError .file
  let settings ← (Settings.parse bytes).mapError (.unreadable path)
  settings.check.mapError .settings
  return settings

def nearest (files : Files) (directory : String) : Except Fault Settings :=
  match find? files directory with
  | some path => load files path
  | none => .ok {}

def create (files : Files) (directory : String) (settings : Settings) :
    Except Fault (String × Files) := do
  let path := Path.join directory fileName
  if files.exists? path then throw (.exists path)
  let files ← (files.write path (Text.Utf8.encode settings.render)).mapError .file
  return (path, files)

end ScriptKernel.Project
