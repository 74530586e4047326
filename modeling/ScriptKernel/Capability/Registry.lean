import ScriptKernel.Calendar.Format
import ScriptKernel.Capability.Key
import ScriptKernel.Value.Dialect

/-!
Host operations. Programs reach the outside only through the capabilities of
a registry, and what they write is collected on a console. What a call of a
capability comes to is the host's to say.
-/

namespace ScriptKernel

structure Console where
  out : String := ""
  err : String := ""
  asked : Nat := 0
deriving Repr, DecidableEq

namespace Console

def print (text : String) : Console → Console
  | ⟨out, err, asked⟩ => ⟨out ++ text, err, asked⟩

def warn (text : String) : Console → Console
  | ⟨out, err, asked⟩ => ⟨out, err ++ text, asked⟩

def called : Console → Console
  | ⟨out, err, asked⟩ => ⟨out, err, asked + 1⟩

end Console

inductive Builtin where
  | print
  | write
  | debugInfo
  | debugDump
  | valueKind
  | now
  | formatTime
  | unixTime
deriving Repr, DecidableEq

namespace Builtin

def key : Builtin → Key
  | print => ⟨"", "print_native"⟩
  | write => ⟨"", "write_native"⟩
  | debugInfo => ⟨"", "debug_info"⟩
  | debugDump => ⟨"", "debug_dump"⟩
  | valueKind => ⟨"", "value_type"⟩
  | now => ⟨"time", "now"⟩
  | formatTime => ⟨"time", "format"⟩
  | unixTime => ⟨"time", "unix"⟩

def arity : Builtin → Nat
  | now | unixTime => 0
  | _ => 1

end Builtin

/-- A host operation: one that is built in, or one of a host that records its
calls. The dialect says which kinds of values it makes. -/
inductive Capability where
  /-- On a broken output, writing fails with the reason given. -/
  | builtin (action : Builtin) (dialect : Dialect) (broken : Option String)
  | recorded (label : String) (fails : Bool) (dialect : Dialect)
deriving Repr, DecidableEq

namespace Capability

def emit (name : String) (broken : Option String) (text : String) (result : Value)
    (console : Console) : Console × Except RuntimeFault Value :=
  match broken with
  | some reason => (console, .error (.writeFailed name reason))
  | none => (console.print text, .ok result)

def act (clock : Clock) (heap : Heap) (action : Builtin) (dialect : Dialect)
    (broken : Option String) (v : Value) (console : Console) :
    Console × Except RuntimeFault Value :=
  match action with
  | .print => emit action.key.render broken (heap.display v ++ "\n") v console
  | .write => emit action.key.render broken (heap.display v) v console
  | .debugInfo => (console.warn (heap.debug v ++ "\n"), .ok v)
  | .debugDump =>
    let shown := if v = .absent then "nil" else heap.debug v
    (console.warn (shown ++ "\n"), .ok v)
  | .valueKind => (console, .ok (dialect.text v.kind))
  | .now => (console, .ok (dialect.text (Calendar.timestamp clock)))
  | .formatTime => (console, .ok (dialect.text (Calendar.format clock (heap.display v))))
  | .unixTime => (console, .ok (dialect.whole clock.seconds))

def perform (clock : Clock) (heap : Heap) (capability : Capability) (args : List Value)
    (console : Console) : Console × Except RuntimeFault Value :=
  match capability with
  | .builtin action dialect broken =>
    if args.length ≠ action.arity then
      (console, .error (.arity action.key.render action.arity args.length))
    else act clock heap action dialect broken (args.headD .absent) console
  | .recorded label fails dialect =>
    let call := "<" ++ label ++ "(" ++ Text.join ", " (args.map heap.debug) ++ ")>"
    let console := console.print call
    if fails then (console, .error (.capabilityFailed label))
    else (console, .ok (args.headD (dialect.text "ok")))

end Capability

/-- What a host does when a capability is called: it is given the heap, the
arguments and the console, on which this call is counted already. -/
abbrev Host := Capability → Heap → List Value → Console → (Heap × Console) × Except RuntimeFault Value

/-- The host that serves the built-in operations by a clock that stands still,
and records the calls of all others. -/
def Host.usual (clock : Clock) : Host := fun capability heap args console =>
  let (console, result) := capability.perform clock heap args console
  ((heap, console), result)

structure Registry where
  entries : List (Key × Capability) := []
deriving Repr, DecidableEq

namespace Registry

def empty : Registry := {}

def find? (r : Registry) (key : Key) : Option Capability :=
  r.entries.lookup key

def has (r : Registry) (key : Key) : Bool :=
  (r.find? key).isSome

def remove (r : Registry) (key : Key) : Registry :=
  ⟨r.entries.filter (·.1 ≠ key)⟩

def register (r : Registry) (key : Key) (capability : Capability) : Registry :=
  ⟨(r.remove key).entries ++ [(key, capability)]⟩

def first? (r : Registry) : List Key → Option (Key × Capability)
  | [] => none
  | key :: keys =>
    match r.find? key with
    | some capability => some (key, capability)
    | none => r.first? keys

/-- Removes what a selector stands for. A text that is no selector denies
nothing. -/
def denyOne (r : Registry) (selector : String) : Registry :=
  match Selector.parse selector with
  | .ok keys => keys.foldl remove r
  | .error _ => r

def deny (r : Registry) (selectors : List String) : Registry :=
  selectors.foldl denyOne r

def keys (r : Registry) : List Key :=
  (r.entries.map (·.1)).mergeSort Key.precedes

/-- Puts in the built-in capabilities. Those that make texts or whole numbers
are left out where the host has no such values. -/
def withBuiltins (r : Registry) (dialect : Dialect) (texts wholes : Bool)
    (broken : Option String) : Registry :=
  let actions : List Builtin :=
    [.print, .write, .debugInfo, .debugDump] ++
      (if texts then [.valueKind, .now, .formatTime] else []) ++
      (if wholes then [.unixTime] else [])
  actions.foldl (fun r action => r.register action.key (.builtin action dialect broken)) r

def withRecorded (r : Registry) (dialect : Dialect) (key : Key) (label : String) : Registry :=
  r.register key (.recorded label (key.name == "fail") dialect)

end Registry

end ScriptKernel
