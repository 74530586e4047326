import ScriptKernel.Shell.Basic
import Std.Time.DateTime.Timestamp

/-!
The program: it takes in what a command may look at, and carries out what the
command comes to.
-/

namespace ScriptKernel

def contentOf (handle : IO.FS.Handle) : IO Entry := do
  try return .file (← handle.readBinToEnd).toList
  catch _ => return .directory

def entryAt? (path : String) : IO (Option Entry) := do
  try return some (← contentOf (← IO.FS.Handle.mk path .read))
  catch _ => return none

def takeIn (workingDirectory : String) (paths : List String) : IO Files := do
  let mut entries := [(Files.place workingDirectory, Entry.directory)]
  for path in paths.flatMap Path.stages do
    if let some entry ← entryAt? path then
      entries := (Files.place (Path.absolute workingDirectory path), entry) :: entries
  return { workingDirectory := workingDirectory, entries := entries }

def surroundings (args : List String) : IO Surroundings := do
  let workingDirectory := toString (← IO.currentDir)
  let home := (← IO.getEnv "HOME").getD ""
  let paths := match CommandLine.parse args with
    | .ok line => Shell.consulted workingDirectory home line.command
    | .error _ => []
  let now ← Std.Time.Timestamp.now
  return {
    files := ← takeIn workingDirectory paths
    home := home
    clock := { seconds := now.toSecondsSinceUnixEpoch.toInt } }

def tell (console : Console) : IO Unit := do
  IO.print console.out
  (← IO.getStdout).flush
  IO.eprint console.err

def carryOut (written : List (String × List UInt8)) : IO Unit := do
  for (path, bytes) in written do
    IO.FS.writeBinFile path (ByteArray.mk bytes.toArray)

def withoutBreak (line : String) : String :=
  match line.toList.reverse with
  | '\n' :: '\r' :: rest => String.ofList rest.reverse
  | '\n' :: rest => String.ofList rest.reverse
  | _ => line

partial def converse (input : IO.FS.Stream) (d : Dialogue) : IO Dialogue := do
  if ← input.isTty then
    IO.print (if d.pending = "" then ">>> " else "... ")
    (← IO.getStdout).flush
  let line ← input.getLine
  if line.isEmpty then return d
  let (told, d) := d.feed (withoutBreak line)
  tell told
  converse input d

end ScriptKernel

open ScriptKernel

def main (args : List String) : IO UInt32 := do
  let around ← surroundings args
  match Shell.respond around args with
  | .done outcome =>
    carryOut outcome.written
    tell outcome.console
    return if outcome.failed then 1 else 0
  | .dialogue d =>
    tell { out := d.greeting version }
    let last ← converse (← IO.getStdin) d
    tell { out := "\n" }
    carryOut (Shell.close around last)
    return 0
