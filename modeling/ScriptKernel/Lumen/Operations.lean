import ScriptKernel.Number.Power
import ScriptKernel.Program.Basic
import ScriptKernel.Value.Heap

/-!
What Lumen's operators do: arithmetic on numbers, comparison, and sequences,
which are strings by character, arrays by element and ranges by step one.
-/

namespace ScriptKernel.Lumen

def numberArith (op : ArithOp) (x y : Float) : Except RuntimeFault Value :=
  match op with
  | .add => .ok (.number (x + y))
  | .sub => .ok (.number (x - y))
  | .mul => .ok (.number (x * y))
  | .div => if y == 0 then .error .divisionByZero else .ok (.number (x / y))
  | .floorDiv =>
    if y == 0 then .error .divisionByZero else .ok (.number (Binary64.floor (x / y)))
  | .mod => if y == 0 then .error .moduloByZero else .ok (.number (Binary64.remainder x y))
  | .pow => .ok (.number (Binary64.power x y))
  | .other symbol => .error (.invalidArithmetic symbol)

def arith (op : ArithOp) (left right : Value) : Except RuntimeFault Value := do
  match op, left with
  | .add, .string s =>
    let t ← right.asString
    .ok (.string (s ++ t))
  | _, _ =>
    let x ← left.asNumber
    let y ← right.asNumber
    numberArith op x y

def negate (v : Value) : Except RuntimeFault Value := do
  let x ← v.asNumber
  .ok (.number (-x))

def not (v : Value) : Except RuntimeFault Value := do
  let b ← v.asBool
  .ok (.bool (!b))

/-- Less, greater or neither. Numbers without an order count as neither. -/
def order (less greater : Bool) : Ordering :=
  if less then .lt else if greater then .gt else .eq

def compareNumbers (x y : Float) : Ordering :=
  order (x < y) (y < x)

def compareStrings (s t : String) : Ordering :=
  order (s < t) (t < s)

def decideOrder (op : CompareOp) (o : Ordering) : Except RuntimeFault Value :=
  match op with
  | .lt => .ok (.bool (o == .lt))
  | .le => .ok (.bool (o != .gt))
  | .gt => .ok (.bool (o == .gt))
  | .ge => .ok (.bool (o != .lt))
  | op => .error (.invalidComparison op.symbol)

def compare (heap : Heap) (op : CompareOp) (left right : Value) : Except RuntimeFault Value := do
  match op, left with
  | .eq, _ => .ok (.bool (← heap.looseEqual left right))
  | .ne, _ => .ok (.bool (!(← heap.looseEqual left right)))
  | _, .number x => decideOrder op (compareNumbers x (← right.asNumber))
  | _, .string s => decideOrder op (compareStrings s (← right.asString))
  | _, _ => .error (.cannotOrder left.kind)

def range (start stop : Value) : Except RuntimeFault Value := do
  let x ← start.asNumber
  let y ← stop.asNumber
  .ok (.range x y)

/-- The number of steps of one from `start` to before `stop`, at most the
greatest 32-bit integer. -/
def rangeLength (start stop : Float) : Int :=
  let distance := stop - start
  if 0 < Binary64.ceil distance then
    match Binary64.toInt? (Binary64.ceil distance) with
    | some n => Binary64.clamp32 n
    | none => 2147483647
  else 0

/-- The integer that a number is, cut to 32 bits, which is more than any
sequence has elements. -/
def toIndex? (x : Float) : Option Int :=
  (Binary64.toInt? x).map Binary64.clamp32

def position (v : Value) (length : Int) : Except RuntimeFault Nat := do
  let x ← v.asNumber
  match toIndex? x with
  | none => .error (.indexNotInteger (Decimal.render x))
  | some i =>
    if i < 0 ∨ length ≤ i then .error (.indexOutOfRange (Decimal.render x) length)
    else .ok i.toNat

def index (heap : Heap) (v place : Value) : Except RuntimeFault Value := do
  match v with
  | .array cell =>
    let items := heap.items cell
    let i ← position place items.size
    .ok (items[i]?.getD .absent)
  | .string s =>
    let chars := s.toList
    let i ← position place chars.length
    .ok (.string (String.ofList (chars[i]?.toList)))
  | .range start stop =>
    let i ← position place (rangeLength start stop)
    .ok (.number (start + Binary64.ofInt i))
  | _ => .error (.cannotIndex v.kind)

def length (heap : Heap) (v : Value) : Except RuntimeFault Value :=
  let count (n : Int) : Except RuntimeFault Value := .ok (.number (Binary64.ofInt n))
  match v with
  | .string s => count s.length
  | .array cell => count (heap.items cell).size
  | .range start stop => count (rangeLength start stop)
  | _ => .error (.noLength v.kind)

/-- What a loop runs over: a range step by step, or the elements that were
there when it started. -/
inductive Course where
  | steps (start stop : Float)
  | items (vs : List Value)
deriving DecidableEq

def course (heap : Heap) (v : Value) : Except RuntimeFault Course :=
  match v with
  | .range start stop => .ok (.steps start stop)
  | .array cell => .ok (.items (heap.items cell).toList)
  | .string s => .ok (.items (s.toList.map fun c => .string (String.singleton c)))
  | _ => .error (.cannotIterate v.kind)

end ScriptKernel.Lumen
