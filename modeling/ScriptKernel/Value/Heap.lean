import ScriptKernel.Value.Basic

/-!
The heap of array cells, and what depends on the elements of arrays: the
display and debug forms of a value, equality and copying. Elements are stored
as copies, so an array lies in at most one other and never in itself, and a
walk over the nested elements is no deeper than the heap has cells.
-/

namespace ScriptKernel

structure Heap where
  cells : Array (Array Value) := #[]
deriving DecidableEq

namespace Heap

def empty : Heap := {}

def items (heap : Heap) (cell : Nat) : Array Value :=
  heap.cells[cell]?.getD #[]

def alloc (heap : Heap) (items : Array Value) : Heap × Value :=
  let cell := heap.cells.size
  (⟨heap.cells.push items⟩, .array cell)

def append (heap : Heap) (cell : Nat) (v : Value) : Heap :=
  ⟨heap.cells.modify cell (·.push v)⟩

def replace (heap : Heap) (cell index : Nat) (v : Value) : Heap :=
  ⟨heap.cells.modify cell (·.setIfInBounds index v)⟩

def walkDepth (heap : Heap) : Nat :=
  heap.cells.size + 1

def displayAt (heap : Heap) : Nat → Value → String
  | _, .absent => "<nil>"
  | _, .number x => Decimal.render x
  | _, .bool b => Value.boolText b
  | _, .string s => s
  | _, .none => "none"
  | _, .range start stop => Decimal.render start ++ ".." ++ Decimal.render stop
  | _, .int n => Text.decimal n.toInt
  | _, .flag b => Value.boolText b
  | _, .str s => s
  | _, .unit => "()"
  | _, .function _ name _ => "<fn " ++ name ++ ">"
  | _, .native _ name _ _ => "<native " ++ name ++ ">"
  | _, .foreign s => s
  | 0, .array _ => "[...]"
  | depth + 1, .array cell =>
    let item : Value → String := fun v =>
      match v with
      | .string s => Text.quote s
      | v => displayAt heap depth v
    "[" ++ Text.join ", " ((heap.items cell).toList.map item) ++ "]"

def debugAt (heap : Heap) : Nat → Value → String
  | _, .absent => "<nil>"
  | _, .number x => "Number(" ++ Decimal.render x ++ ")"
  | _, .bool b => "Bool(" ++ Value.boolText b ++ ")"
  | _, .string s => "String(" ++ Text.quote s ++ ")"
  | _, .none => "None"
  | _, .range start stop => "Range(" ++ Decimal.render start ++ ", " ++ Decimal.render stop ++ ")"
  | _, .int n => "Int(" ++ Text.decimal n.toInt ++ ")"
  | _, .flag b => "Bool(" ++ Value.boolText b ++ ")"
  | _, .str s => "Str(" ++ Text.quote s ++ ")"
  | _, .unit => "Unit"
  | _, .function _ name arity => "Function(" ++ name ++ "/" ++ Text.decimal arity ++ ")"
  | _, .native _ name _ _ => "Native(" ++ name ++ ")"
  | _, .foreign s => "Opaque(" ++ s ++ ")"
  | 0, .array _ => "Array[...]"
  | depth + 1, .array cell =>
    "Array[" ++ Text.join ", " ((heap.items cell).toList.map (debugAt heap depth)) ++ "]"

/-- The form in which a value is printed. Strings are shown bare on their own
and quoted inside an array. -/
def display (heap : Heap) (v : Value) : String :=
  heap.displayAt heap.walkDepth v

def debug (heap : Heap) (v : Value) : String :=
  heap.debugAt heap.walkDepth v

def allEqual (equal : Value → Value → Except RuntimeFault Bool) :
    List Value → List Value → Except RuntimeFault Bool
  | a :: as, b :: bs => do
    if ← equal a b then allEqual equal as bs else .ok false
  | _, _ => .ok true

/-- Equality of one kind with itself. Most kinds refuse the comparison with
another kind; none is merely different from everything else. -/
def equalAt (heap : Heap) : Nat → Value → Value → Except RuntimeFault Bool
  | _, .absent, b => .ok (b = .absent)
  | _, _, .absent => .ok false
  | _, .number x, .number y => .ok (x == y)
  | _, .bool a, .bool b => .ok (a == b)
  | _, .string s, .string t => .ok (s == t)
  | _, .none, b => .ok (b = .none)
  | _, .range a b, .range c d => .ok (a == c && b == d)
  | _, .int m, .int n => .ok (m == n)
  | _, .flag a, .flag b => .ok (a == b)
  | _, .str s, .str t => .ok (s == t)
  | _, .unit, .unit => .ok true
  | _, .function a _ _, .function b _ _ => .ok (a == b)
  | _, .native a _ _ _, .native b _ _ _ => .ok (a == b)
  | _, .foreign s, .foreign t => .ok (s == t)
  | 0, .array a, .array b => .ok (a == b)
  | depth + 1, .array a, .array b =>
    let left := heap.items a
    let right := heap.items b
    if left.size ≠ right.size then .ok false
    else
      allEqual (fun x y => if x.kind ≠ y.kind then .ok false else equalAt heap depth x y)
        left.toList right.toList
  | _, a, b => .error (a.incomparable b)

def strictEqual (heap : Heap) (a b : Value) : Except RuntimeFault Bool :=
  heap.equalAt heap.walkDepth a b

def looseEqual (heap : Heap) (a b : Value) : Except RuntimeFault Bool :=
  if a.kind ≠ b.kind then .ok false else heap.strictEqual a b

def copyAll (copy : Heap → Value → Heap × Value) (heap : Heap) (vs : List Value) :
    Heap × Array Value :=
  vs.foldl (fun (heap, done) v =>
    let (heap, v) := copy heap v
    (heap, done.push v)) (heap, #[])

def copyAt : Nat → Heap → Value → Heap × Value
  | depth + 1, heap, .array cell =>
    let (heap, items) := copyAll (copyAt depth) heap (heap.items cell).toList
    heap.alloc items
  | _, heap, v => (heap, v)

def copy (heap : Heap) (v : Value) : Heap × Value :=
  copyAt heap.walkDepth heap v

def copies (heap : Heap) (vs : List Value) : Heap × Array Value :=
  copyAll copy heap vs

end Heap

end ScriptKernel
