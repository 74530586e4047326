import ScriptKernel.Value.Heap
import Std.Data.HashMap

/-!
The cache of function results. A result is found again by the function's label
and the debug forms of the arguments.
-/

namespace ScriptKernel

structure Memo where
  enabled : Bool := false
  results : Std.HashMap (Nat × String) Value := {}
  hits : Nat := 0

namespace Memo

def enable (m : Memo) (on : Bool) : Memo :=
  if on then { m with enabled := true } else { m with enabled := false, results := {} }

def size (m : Memo) : Nat :=
  m.results.size

def find? (m : Memo) (label : Nat) (key : String) : Option Value :=
  m.results[(label, key)]?

def hit (m : Memo) : Memo :=
  { m with hits := m.hits + 1 }

def store (m : Memo) (label : Nat) (key : String) (v : Value) : Memo :=
  { m with results := m.results.insert (label, key) v }

def key (heap : Heap) (args : List Value) : String :=
  Text.join "," (args.map heap.debug)

end Memo

end ScriptKernel
