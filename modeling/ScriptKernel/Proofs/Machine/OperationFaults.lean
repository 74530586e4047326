import ScriptKernel.Lumen.Operations
import ScriptKernel.MiniRust.Operations
import ScriptKernel.Capability.Registry
import ScriptKernel.Proofs.Machine.OperationResults
import ScriptKernel.Proofs.Value.Forest

/-!
The faults of single operations. Whatever the values it is given, an operation
of either language or a capability complains of those values alone, and an
operator besides of being unknown. That a signal for a loop went astray is found
out by the machine.
-/

namespace ScriptKernel

def RuntimeFault.isStray : RuntimeFault → Bool
  | .stray _ => true
  | .strayIn _ _ => true
  | _ => false

def RuntimeFault.isInvalidOperator : RuntimeFault → Bool
  | .invalidArithmetic _ => true
  | .invalidComparison _ => true
  | _ => false

def Faults {α : Type} (P : RuntimeFault → Prop) (result : Except RuntimeFault α) : Prop :=
  ∀ f, result = .error f → P f

/-- The faults about operands are of the kind. -/
def OfOperands (P : RuntimeFault → Prop) : Prop :=
  ∀ f : RuntimeFault, f.isStray = false → f.isInvalidOperator = false → P f

abbrev Orderly {α : Type} (result : Except RuntimeFault α) : Prop :=
  Faults (fun f => f.isStray = false) result

theorem ofOperands_orderly : OfOperands fun f => f.isStray = false :=
  fun _ orderly _ => orderly

variable {P : RuntimeFault → Prop}

namespace Faults

variable {α β : Type}

theorem ok (a : α) : Faults P (.ok a : Except RuntimeFault α) :=
  nofun

theorem error {f : RuntimeFault} (holds : P f) : Faults P (.error f : Except RuntimeFault α) := by
  rintro _ ⟨⟩
  exact holds

theorem bind {result : Except RuntimeFault α} {next : α → Except RuntimeFault β} (first : Faults P result)
    (rest : ∀ a, Faults P (next a)) : Faults P (result >>= next) := by
  cases result with
  | ok a => exact rest a
  | error f => exact .error (first f rfl)

theorem ite {p : Prop} [Decidable p] {yes no : Except RuntimeFault α} (first : Faults P yes) (second : Faults P no) :
    Faults P (if p then yes else no) := by
  split
  · exact first
  · exact second

end Faults

section

variable (operands : OfOperands P)
include operands

namespace Value

theorem asNumber_faults (v : Value) : Faults P v.asNumber := by
  cases v with
  | number x => exact .ok x
  | _ => exact .error (operands _ rfl rfl)

theorem asString_faults (v : Value) : Faults P v.asString := by
  cases v with
  | string s => exact .ok s
  | _ => exact .error (operands _ rfl rfl)

theorem asBool_faults (v : Value) : Faults P v.asBool := by
  cases v with
  | bool b => exact .ok b
  | _ => exact .error (operands _ rfl rfl)

theorem asArray_faults (v : Value) : Faults P v.asArray := by
  cases v with
  | array cell => exact .ok cell
  | _ => exact .error (operands _ rfl rfl)

theorem asInt_faults (v : Value) : Faults P v.asInt := by
  cases v with
  | int n => exact .ok n
  | _ => exact .error (operands _ rfl rfl)

theorem asFlag_faults (v : Value) : Faults P v.asFlag := by
  cases v with
  | flag b => exact .ok b
  | _ => exact .error (operands _ rfl rfl)

theorem asStr_faults (v : Value) : Faults P v.asStr := by
  cases v with
  | str s => exact .ok s
  | _ => exact .error (operands _ rfl rfl)

end Value

namespace Heap

omit operands in
theorem allEqual_faults {equal : Value → Value → Except RuntimeFault Bool} (each : ∀ a b, Faults P (equal a b))
    (as bs : List Value) : Faults P (allEqual equal as bs) := by
  induction as generalizing bs with
  | nil => exact .ok true
  | cons a as ih =>
    cases bs with
    | nil => exact .ok true
    | cons b bs =>
      apply (each a b).bind
      intro same
      exact .ite (ih bs) (.ok false)

theorem equalAt_zero_faults (heap : Heap) (a b : Value) : Faults P (heap.equalAt 0 a b) := by
  cases a <;> cases b <;> first | exact .ok _ | exact .error (operands _ rfl rfl)

theorem equalAt_faults (heap : Heap) (depth : Nat) (a b : Value) : Faults P (heap.equalAt depth a b) := by
  induction depth generalizing a b with
  | zero => exact heap.equalAt_zero_faults operands a b
  | succ depth ih =>
    by_cases arrays : ∃ cell cell', a = .array cell ∧ b = .array cell'
    · obtain ⟨cell, cell', rfl, rfl⟩ := arrays
      rw [equalAt_arrays]
      refine Faults.ite (.ok false) ?_
      apply allEqual_faults
      intro x y
      exact .ite (.ok false) (ih x y)
    · have flat (cell cell' : Nat) (first : a = .array cell) : b ≠ .array cell' :=
        fun second => arrays ⟨cell, cell', first, second⟩
      rw [equalAt_flat flat 0 (depth + 1)]
      exact heap.equalAt_zero_faults operands a b

theorem strictEqual_faults (heap : Heap) (a b : Value) : Faults P (heap.strictEqual a b) :=
  heap.equalAt_faults operands heap.walkDepth a b

theorem looseEqual_faults (heap : Heap) (a b : Value) : Faults P (heap.looseEqual a b) :=
  .ite (.ok false) (heap.strictEqual_faults operands a b)

end Heap

namespace Lumen

theorem numberArith_faults {op : ArithOp} (named : ∀ symbol, op = .other symbol → P (.invalidArithmetic symbol))
    (x y : Float) : Faults P (numberArith op x y) := by
  cases op with
  | div | floorDiv | mod => exact .ite (.error (operands _ rfl rfl)) (.ok _)
  | other symbol => exact .error (named symbol rfl)
  | _ => exact .ok _

theorem arith_faults {op : ArithOp} (named : ∀ symbol, op = .other symbol → P (.invalidArithmetic symbol))
    (left right : Value) : Faults P (arith op left right) := by
  unfold arith
  split
  · apply (right.asString_faults operands).bind
    exact fun t => .ok _
  · apply (left.asNumber_faults operands).bind
    intro x
    apply (right.asNumber_faults operands).bind
    exact fun y => numberArith_faults operands named x y

theorem negate_faults (v : Value) : Faults P (negate v) :=
  (v.asNumber_faults operands).bind fun _ => .ok _

theorem not_faults (v : Value) : Faults P (not v) :=
  (v.asBool_faults operands).bind fun _ => .ok _

omit operands in
theorem decideOrder_faults {op : CompareOp} (eq : op ≠ .eq) (ne : op ≠ .ne)
    (named : ∀ symbol, op = .other symbol → P (.invalidComparison symbol)) (o : Ordering) :
    Faults P (decideOrder op o) := by
  cases op with
  | eq => exact absurd rfl eq
  | ne => exact absurd rfl ne
  | other symbol => exact .error (named symbol rfl)
  | _ => exact .ok _

theorem compare_faults (heap : Heap) {op : CompareOp}
    (named : ∀ symbol, op = .other symbol → P (.invalidComparison symbol)) (left right : Value) :
    Faults P (compare heap op left right) := by
  unfold compare
  split
  · exact (heap.looseEqual_faults operands left right).bind fun _ => .ok _
  · exact (heap.looseEqual_faults operands left right).bind fun _ => .ok _
  · exact (right.asNumber_faults operands).bind fun _ => decideOrder_faults ‹_› ‹_› named _
  · exact (right.asString_faults operands).bind fun _ => decideOrder_faults ‹_› ‹_› named _
  · exact .error (operands _ rfl rfl)

theorem range_faults (start stop : Value) : Faults P (range start stop) :=
  (start.asNumber_faults operands).bind fun _ => (stop.asNumber_faults operands).bind fun _ => .ok _

theorem position_faults (v : Value) (length : Int) : Faults P (position v length) := by
  apply (v.asNumber_faults operands).bind
  intro x
  cases toIndex? x with
  | none => exact .error (operands _ rfl rfl)
  | some i => exact .ite (.error (operands _ rfl rfl)) (.ok _)

theorem index_faults (heap : Heap) (v place : Value) : Faults P (index heap v place) := by
  cases v with
  | array cell => exact (position_faults operands place _).bind fun _ => .ok _
  | string s => exact (position_faults operands place _).bind fun _ => .ok _
  | range start stop => exact (position_faults operands place _).bind fun _ => .ok _
  | _ => exact .error (operands _ rfl rfl)

theorem length_faults (heap : Heap) (v : Value) : Faults P (length heap v) := by
  cases v with
  | string s | array cell | range start stop => exact .ok _
  | _ => exact .error (operands _ rfl rfl)

theorem course_faults (heap : Heap) (v : Value) : Faults P (course heap v) := by
  cases v with
  | range start stop | array cell | string s => exact .ok _
  | _ => exact .error (operands _ rfl rfl)

end Lumen

namespace MiniRust

theorem intArith_faults {op : ArithOp}
    (named : op ∉ [.add, .sub, .mul, .div, .mod] → P (.invalidArithmetic op.symbol)) (x y : Int64) :
    Faults P (intArith op x y) := by
  cases op with
  | add | sub => exact .ite (.error (operands _ rfl rfl)) (.ok _)
  | mul => exact .ite (.ok _) (.ite (.error (operands _ rfl rfl)) (.ok _))
  | div => exact .ite (.error (operands _ rfl rfl)) (.ite (.error (operands _ rfl rfl)) (.ok _))
  | mod => exact .ite (.error (operands _ rfl rfl)) (.ite (.ok _) (.ok _))
  | floorDiv | pow | other symbol => exact .error (named (by simp))

theorem arith_faults {op : ArithOp}
    (named : op ∉ [.add, .sub, .mul, .div, .mod] → P (.invalidArithmetic op.symbol)) (left right : Value) :
    Faults P (arith op left right) := by
  unfold arith
  split
  · apply (right.asStr_faults operands).bind
    exact fun t => .ok _
  · apply (left.asInt_faults operands).bind
    intro x
    apply (right.asInt_faults operands).bind
    exact fun y => intArith_faults operands named x y

theorem negate_faults (v : Value) : Faults P (negate v) :=
  (v.asInt_faults operands).bind fun _ => .ite (.error (operands _ rfl rfl)) (.ok _)

theorem not_faults (v : Value) : Faults P (not v) :=
  (v.asFlag_faults operands).bind fun _ => .ok _

omit operands in
theorem compareInts_faults {op : CompareOp} (eq : op ≠ .eq) (ne : op ≠ .ne)
    (named : ∀ symbol, op = .other symbol → P (.invalidComparison symbol)) (x y : Int64) :
    Faults P (compareInts op x y) := by
  cases op with
  | eq => exact absurd rfl eq
  | ne => exact absurd rfl ne
  | other symbol => exact .error (named symbol rfl)
  | _ => exact .ok _

theorem compare_faults (heap : Heap) {op : CompareOp}
    (named : ∀ symbol, op = .other symbol → P (.invalidComparison symbol)) (left right : Value) :
    Faults P (compare heap op left right) := by
  unfold compare
  split
  · exact (heap.strictEqual_faults operands left right).bind fun _ => .ok _
  · exact (heap.strictEqual_faults operands left right).bind fun _ => .ok _
  · apply (left.asInt_faults operands).bind
    intro x
    apply (right.asInt_faults operands).bind
    exact fun y => compareInts_faults ‹_› ‹_› named x y

theorem fill_faults (given used : Nat) (texts : List String) (template : List Char) :
    Faults P (fill given used texts template) := by
  fun_induction fill given used texts template with
  | case3 => exact .error (operands _ rfl rfl)
  | case6 => exact .ok _
  | case7 => exact .error (operands _ rfl rfl)
  | case1 _ _ _ ih | case2 _ _ _ ih | case4 _ _ _ _ ih | case5 _ _ _ _ _ _ _ ih =>
    exact ih.bind fun _ => .ok _

theorem format_faults (template : String) (texts : List String) : Faults P (format template texts) :=
  (fill_faults operands texts.length 0 texts template.toList).bind fun _ => .ok _

end MiniRust

theorem Expr.conversion_faults {x : Expr} {f : Value → Except RuntimeFault Value} (here : x.conversion = some f)
    (v : Value) : Faults P (f v) := by
  cases x with
  | negate y =>
    cases here
    exact Lumen.negate_faults operands v
  | not y =>
    cases here
    exact Lumen.not_faults operands v
  | intNegate y =>
    cases here
    exact MiniRust.negate_faults operands v
  | flagNot y =>
    cases here
    exact MiniRust.not_faults operands v
  | _ => cases here

omit operands in
theorem Expr.operation_orderly {x : Expr} {f : Heap → Value → Value → Except RuntimeFault Value}
    (here : x.operation = some f) (heap : Heap) (a b : Value) : Orderly (f heap a b) := by
  have operands := ofOperands_orderly
  cases x with
  | binary op left right =>
    cases here
    exact Lumen.arith_faults operands (fun _ _ => rfl) a b
  | compare op left right =>
    cases here
    exact Lumen.compare_faults operands heap (fun _ _ => rfl) a b
  | range start stop =>
    cases here
    exact Lumen.range_faults operands a b
  | index y position =>
    cases here
    exact Lumen.index_faults operands heap a b
  | intBinary op left right =>
    cases here
    exact MiniRust.arith_faults operands (fun _ => rfl) a b
  | intCompare op left right =>
    cases here
    exact MiniRust.compare_faults operands heap (fun _ _ => rfl) a b
  | _ => cases here

theorem Capability.perform_faults (clock : Clock) (heap : Heap) (capability : Capability) (args : List Value)
    (console : Console) : Faults P (capability.perform clock heap args console).2 := by
  cases capability with
  | builtin action dialect broken =>
    simp only [perform]
    split
    · exact .error (operands _ rfl rfl)
    · cases action with
      | print | write =>
        cases broken with
        | none => exact .ok _
        | some reason => exact .error (operands _ rfl rfl)
      | _ => exact .ok _
  | recorded label fails dialect =>
    cases fails with
    | true => exact .error (operands _ rfl rfl)
    | false => exact .ok _

theorem Dialect.truth_faults (d : Dialect) (v : Value) : Faults P (d.truth v) := by
  cases d with
  | lumen => exact v.asBool_faults operands
  | minirust => exact v.asFlag_faults operands

end

end ScriptKernel
