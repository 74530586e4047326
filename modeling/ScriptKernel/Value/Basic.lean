import ScriptKernel.Number.Decimal
import ScriptKernel.Text.Quoted
import ScriptKernel.Diagnostic

/-!
Values that programs compute with. Two languages share one type, because a
host may mix them: numbers, truth values, strings, none, ranges and arrays are
Lumen's, checked integers, flags, strs and unit are MiniRust's, and functions
are common to both. An array is a reference to a cell of the heap.
-/

namespace ScriptKernel

/-- What a host function does with its arguments. -/
inductive NativeAction where
  /-- The length of a sequence. -/
  | length
  /-- A new array of the arguments, which are not copied. -/
  | collect
deriving Repr, DecidableEq

inductive Value where
  /-- No value at all. Only hosts supply it; no program computes it. -/
  | absent
  | number (x : Float)
  | bool (b : Bool)
  | string (s : String)
  | none
  | range (start stop : Float)
  | array (cell : Nat)
  | int (n : Int64)
  | flag (b : Bool)
  | str (s : String)
  | unit
  /-- A declared function. The label tells functions of one name apart. -/
  | function (label : Nat) (name : String) (arity : Nat)
  /-- A host function; a negative arity accepts any number of arguments. -/
  | native (label : Nat) (name : String) (arity : Int) (action : NativeAction)
  /-- A value of the host's own kind. -/
  | foreign (s : String)
deriving DecidableEq, Inhabited

namespace Value

def kind : Value → String
  | absent => "nil"
  | number _ => "number"
  | bool _ => "bool"
  | string _ => "string"
  | none => "none"
  | range _ _ => "range"
  | array _ => "array"
  | int _ => "i64"
  | flag _ => "bool"
  | str _ => "&str"
  | unit => "()"
  | function .. => "function"
  | native .. => "native"
  | foreign _ => "Opaque"

def boolText (b : Bool) : String :=
  if b then "true" else "false"

def incomparable (a b : Value) : RuntimeFault :=
  .incomparable a.kind b.kind

def wrongKind (want : String) (v : Value) : RuntimeFault :=
  .wrongKind want v.kind

def asNumber : Value → Except RuntimeFault Float
  | number x => .ok x
  | v => .error (v.wrongKind "number")

def asString : Value → Except RuntimeFault String
  | string s => .ok s
  | v => .error (v.wrongKind "string")

def asBool : Value → Except RuntimeFault Bool
  | bool b => .ok b
  | v => .error (v.wrongKind "bool")

def asArray : Value → Except RuntimeFault Nat
  | array cell => .ok cell
  | v => .error (v.wrongKind "array")

def asInt : Value → Except RuntimeFault Int64
  | int n => .ok n
  | v => .error (v.wrongKind "i64")

def asFlag : Value → Except RuntimeFault Bool
  | flag b => .ok b
  | v => .error (v.wrongKind "bool")

def asStr : Value → Except RuntimeFault String
  | str s => .ok s
  | v => .error (v.wrongKind "&str")

end Value

end ScriptKernel
