import ScriptKernel.Value.Heap

/-!
The two languages as far as their values go: which kinds they use for truth,
text, whole numbers and for nothing.
-/

namespace ScriptKernel

inductive Dialect where
  | lumen
  | minirust
deriving Repr, DecidableEq

namespace Dialect

def text (d : Dialect) (s : String) : Value :=
  match d with
  | lumen => .string s
  | minirust => .str s

/-- A whole number: rounded to a number in Lumen, cut to 64 bits in
MiniRust. -/
def whole (d : Dialect) (n : Int) : Value :=
  match d with
  | lumen => .number (Binary64.ofInt n)
  | minirust => .int (Int64.ofInt n)

def empty : Dialect → Value
  | lumen => .none
  | minirust => .unit

def truth (d : Dialect) (v : Value) : Except RuntimeFault Bool :=
  match d with
  | lumen => v.asBool
  | minirust => v.asFlag

end Dialect

end ScriptKernel
