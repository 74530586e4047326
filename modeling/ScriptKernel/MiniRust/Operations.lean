import ScriptKernel.Program.Basic
import ScriptKernel.Value.Heap

/-!
What MiniRust's operators do: integer arithmetic that is exact or fails,
comparison, and the filling of format templates.
-/

namespace ScriptKernel.MiniRust

def overflow (op : ArithOp) (x y : Int64) : RuntimeFault :=
  .overflow x.toInt op.symbol y.toInt

/-- Arithmetic wraps around at 64 bits, and whether it has done so is told from
the result. Quotients are cut off toward zero, and a remainder has the sign of
the dividend. -/
def intArith (op : ArithOp) (x y : Int64) : Except RuntimeFault Value :=
  match op with
  | .add =>
    let sum := x + y
    if decide (x < sum) != decide (0 < y) then .error (overflow op x y) else .ok (.int sum)
  | .sub =>
    let difference := x - y
    if decide (difference < x) != decide (0 < y) then .error (overflow op x y)
    else .ok (.int difference)
  | .mul =>
    if x = 0 ∨ y = 0 then .ok (.int 0)
    else
      let product := x * y
      if product / y ≠ x ∨ (x = -1 ∧ y = Int64.minValue) ∨ (y = -1 ∧ x = Int64.minValue) then
        .error (overflow op x y)
      else .ok (.int product)
  | .div =>
    if y = 0 then .error .divisionByZero
    else if x = Int64.minValue ∧ y = -1 then .error (overflow op x y)
    else .ok (.int (x / y))
  | .mod =>
    if y = 0 then .error .moduloByZero
    else if y = -1 then .ok (.int 0)
    else .ok (.int (x % y))
  | _ => .error (.invalidArithmetic op.symbol)

def arith (op : ArithOp) (left right : Value) : Except RuntimeFault Value := do
  match op, left with
  | .add, .str s =>
    let t ← right.asStr
    .ok (.str (s ++ t))
  | _, _ =>
    let x ← left.asInt
    let y ← right.asInt
    intArith op x y

def negate (v : Value) : Except RuntimeFault Value := do
  let x ← v.asInt
  if x = Int64.minValue then .error (.negationOverflow x.toInt)
  else .ok (.int (-x))

def not (v : Value) : Except RuntimeFault Value := do
  let b ← v.asFlag
  .ok (.flag (!b))

def compareInts (op : CompareOp) (x y : Int64) : Except RuntimeFault Value :=
  match op with
  | .lt => .ok (.flag (x < y))
  | .le => .ok (.flag (x ≤ y))
  | .gt => .ok (.flag (y < x))
  | .ge => .ok (.flag (y ≤ x))
  | op => .error (.invalidComparison op.symbol)

def compare (heap : Heap) (op : CompareOp) (left right : Value) : Except RuntimeFault Value := do
  match op with
  | .eq => .ok (.flag (← heap.strictEqual left right))
  | .ne => .ok (.flag (!(← heap.strictEqual left right)))
  | op =>
    let x ← left.asInt
    let y ← right.asInt
    compareInts op x y

/-- Fills a template: empty braces take the next text, doubled braces stand
for one. `used` counts the texts taken so far of the `given` ones. -/
def fill (given : Nat) : Nat → List String → List Char → Except RuntimeFault String
  | used, texts, template =>
    match template with
    | '\x7b' :: '\x7b' :: rest => do
      let filled ← fill given used texts rest
      .ok ("\x7b" ++ filled)
    | '\x7d' :: '\x7d' :: rest => do
      let filled ← fill given used texts rest
      .ok ("\x7d" ++ filled)
    | '\x7b' :: '\x7d' :: rest =>
      match texts with
      | [] => .error (.tooManyPlaceholders given)
      | text :: texts => do
        let filled ← fill given (used + 1) texts rest
        .ok (text ++ filled)
    | c :: rest => do
      let filled ← fill given used texts rest
      .ok (String.singleton c ++ filled)
    | [] => if used = given then .ok "" else .error (.unusedArguments used given)

def format (template : String) (texts : List String) : Except RuntimeFault Value := do
  let filled ← fill texts.length 0 texts template.toList
  .ok (.str filled)

end ScriptKernel.MiniRust
