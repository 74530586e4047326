import ScriptKernel.MiniRust.Operations
import Mathlib.Tactic.SplitIfs
import Mathlib.Tactic.Ring
import Mathlib.Tactic.Linarith

/-!
Integer arithmetic is exact or fails. The operations compute with integers that
wrap around at 64 bits and tell from the wrapped result whether it is the exact
one: a sum lies above its first operand exactly when the second is positive, a
difference below it, and a product divided by one of its factors is the other.
Each of these tests finds exactly the results that 64 bits do not hold.
-/

namespace ScriptKernel.MiniRust

def InRange (n : Int) : Prop := -2 ^ 63 ≤ n ∧ n ≤ 2 ^ 63 - 1

/-- The outcome is the exact result where 64 bits hold it, and the overflow
error elsewhere. -/
def ExactOrOverflows (op : ArithOp) (x y : Int64) (exact : Int) : Prop :=
  (InRange exact → ∃ z : Int64, z.toInt = exact ∧ intArith op x y = .ok (.int z)) ∧
    (¬ InRange exact → intArith op x y = .error (.overflow x.toInt op.symbol y.toInt))

theorem inRange_toInt (x : Int64) : InRange x.toInt := by
  have lower := x.le_toInt
  have upper := x.toInt_lt
  constructor <;> omega

theorem bmod_eq_add (n : Int) : ∃ k : Int, n.bmod (2 ^ 64) = n + 2 ^ 64 * k := by
  obtain ⟨k, wrapped⟩ := Int.dvd_bmod_sub_self (x := n) (m := 2 ^ 64)
  refine ⟨k, ?_⟩
  rw [← Int.sub_eq_iff_eq_add']
  exact_mod_cast wrapped

theorem bmod_of_inRange {n : Int} (range : InRange n) : n.bmod (2 ^ 64) = n := by
  obtain ⟨lower, upper⟩ := range
  exact Int.bmod_eq_of_le (by omega) (by omega)

theorem ExactOrOverflows.of_wrapped {op : ArithOp} {x y z : Int64} {exact : Int} {lost : Prop}
    [Decidable lost] (wrapped : z.toInt = exact.bmod (2 ^ 64)) (told : lost ↔ ¬ InRange exact)
    (outcome : intArith op x y = if lost then .error (overflow op x y) else .ok (.int z)) :
    ExactOrOverflows op x y exact := by
  constructor
  · intro range
    refine ⟨z, wrapped.trans (bmod_of_inRange range), ?_⟩
    rw [outcome, if_neg (fun h => told.mp h range)]
  · intro outside
    rw [outcome, if_pos (told.mpr outside)]
    rfl

/-! ## Sums and differences -/

theorem sum_overflows (x y : Int64) :
    (decide (x < x + y) != decide (0 < y)) = true ↔ ¬ InRange (x.toInt + y.toInt) := by
  have range := inRange_toInt x
  have range' := inRange_toInt y
  have wrapped := inRange_toInt (x + y)
  rw [Int64.toInt_add] at wrapped
  obtain ⟨k, sum⟩ := bmod_eq_add (x.toInt + y.toInt)
  simp only [bne_iff_ne, ne_eq, decide_eq_decide, Int64.lt_iff_toInt_lt, Int64.toInt_add,
    Int64.toInt_zero, sum] at wrapped ⊢
  unfold InRange at *
  omega

theorem difference_overflows (x y : Int64) :
    (decide (x - y < x) != decide (0 < y)) = true ↔ ¬ InRange (x.toInt - y.toInt) := by
  have range := inRange_toInt x
  have range' := inRange_toInt y
  have wrapped := inRange_toInt (x - y)
  rw [Int64.toInt_sub] at wrapped
  obtain ⟨k, difference⟩ := bmod_eq_add (x.toInt - y.toInt)
  simp only [bne_iff_ne, ne_eq, decide_eq_decide, Int64.lt_iff_toInt_lt, Int64.toInt_sub,
    Int64.toInt_zero, difference] at wrapped ⊢
  unfold InRange at *
  omega

theorem add_exactOrOverflows (x y : Int64) : ExactOrOverflows .add x y (x.toInt + y.toInt) :=
  .of_wrapped (Int64.toInt_add x y) (sum_overflows x y) rfl

theorem sub_exactOrOverflows (x y : Int64) : ExactOrOverflows .sub x y (x.toInt - y.toInt) :=
  .of_wrapped (Int64.toInt_sub x y) (difference_overflows x y) rfl

/-! ## Products -/

theorem eq_minValue_iff {x : Int64} : x = Int64.minValue ↔ x.toInt = -2 ^ 63 := by
  rw [← Int64.toInt_inj, Int64.toInt_minValue]

theorem eq_neg_one_iff {x : Int64} : x = -1 ↔ x.toInt = -1 := by
  rw [← Int64.toInt_inj]
  rfl

theorem eq_zero_iff {x : Int64} : x = 0 ↔ x.toInt = 0 := by
  rw [← Int64.toInt_inj]
  rfl

/-- A wrapped product that gives one factor back when divided by the other is
the exact product: the remainder of the division is smaller than the divisor,
and a multiple of 2^64. -/
theorem product_exact {x y : Int64} (nonzero : y ≠ 0) (other : y ≠ -1) (back : x * y / y = x) :
    InRange (x.toInt * y.toInt) := by
  have wrapped := inRange_toInt (x * y)
  have range := inRange_toInt y
  obtain ⟨k, product⟩ := bmod_eq_add (x.toInt * y.toInt)
  rw [← Int64.toInt_mul] at product
  have quotient : (x * y).toInt.tdiv y.toInt = x.toInt := by
    rw [← Int64.toInt_div_of_ne_right _ _ other, back]
  have division := Int.mul_tdiv_add_tmod (x * y).toInt y.toInt
  rw [quotient, Int.mul_comm] at division
  have small : ((x * y).toInt.tmod y.toInt).natAbs < y.toInt.natAbs := by
    rw [Int.natAbs_tmod]
    exact Nat.mod_lt _ (Int.natAbs_pos.mpr (mt eq_zero_iff.mpr nonzero))
  have none : k = 0 := by
    unfold InRange at range
    omega
  rwa [product, none, Int.mul_zero, Int.add_zero] at wrapped

theorem product_overflows {x y : Int64} (nonzero : y ≠ 0) :
    (x * y / y ≠ x ∨ (x = -1 ∧ y = Int64.minValue) ∨ (y = -1 ∧ x = Int64.minValue)) ↔
      ¬ InRange (x.toInt * y.toInt) := by
  constructor
  · rintro (lost | ⟨rfl, rfl⟩ | ⟨rfl, rfl⟩) range
    · have product : (x * y).toInt = x.toInt * y.toInt := by
        rw [Int64.toInt_mul, bmod_of_inRange range]
      apply lost
      rw [← Int64.toInt_inj, Int64.toInt_div, product,
        Int.mul_tdiv_cancel _ (mt eq_zero_iff.mpr nonzero), bmod_of_inRange (inRange_toInt x)]
    · exact absurd range (by unfold InRange; decide)
    · exact absurd range (by unfold InRange; decide)
  · intro outside
    by_contra kept
    obtain ⟨back, first, second⟩ := not_or.mp kept |>.imp not_not.mp not_or.mp
    by_cases negated : y = -1
    · have range := inRange_toInt x
      have least : x.toInt ≠ -2 ^ 63 := fun h => second ⟨negated, eq_minValue_iff.mpr h⟩
      rw [eq_neg_one_iff.mp negated] at outside
      unfold InRange at outside range
      omega
    · exact outside (product_exact nonzero negated back)

theorem mul_exactOrOverflows (x y : Int64) : ExactOrOverflows .mul x y (x.toInt * y.toInt) := by
  by_cases zero : x = 0 ∨ y = 0
  · have product : x.toInt * y.toInt = 0 := by
      rcases zero with rfl | rfl <;> simp
    rw [product]
    refine ⟨fun _ => ⟨0, rfl, if_pos zero⟩, fun outside => absurd ?_ outside⟩
    unfold InRange
    decide
  · refine .of_wrapped (Int64.toInt_mul x y) (product_overflows (not_or.mp zero).2) ?_
    simp only [intArith, if_neg zero]

/-! ## Quotients, remainders and negation -/

/-- Division fails for a divisor of zero and for the one quotient out of range;
every other quotient is exact, cut off toward zero. -/
def DividesExactly (x y : Int64) : Prop :=
  (intArith .div x y = .error .divisionByZero ↔ y = 0) ∧
    (intArith .div x y = .error (overflow .div x y) ↔ x.toInt = -2 ^ 63 ∧ y.toInt = -1) ∧
    (y ≠ 0 → ¬ (x.toInt = -2 ^ 63 ∧ y.toInt = -1) →
      ∃ z : Int64, z.toInt = x.toInt.tdiv y.toInt ∧ intArith .div x y = .ok (.int z))

theorem div_exact (x y : Int64) : DividesExactly x y := by
  rw [DividesExactly, ← eq_minValue_iff, ← eq_neg_one_iff]
  by_cases zero : y = 0
  · subst zero
    simp [intArith, overflow]
  · by_cases least : x = Int64.minValue ∧ y = -1
    · obtain ⟨rfl, rfl⟩ := least
      simp [intArith, overflow]
    · have outcome : intArith .div x y = .ok (.int (x / y)) := by
        simp only [intArith, if_neg zero, if_neg least]
      refine ⟨by simp [outcome, zero], by simp [outcome, least], fun _ _ => ⟨x / y, ?_, outcome⟩⟩
      by_cases negated : y = -1
      · exact Int64.toInt_div_of_ne_left _ _ fun h => least ⟨h, negated⟩
      · exact Int64.toInt_div_of_ne_right _ _ negated

/-- A remainder fails for a divisor of zero only, and is what the quotient
leaves of the dividend. -/
def RemaindersExactly (x y : Int64) : Prop :=
  ((∃ fault, intArith .mod x y = .error fault) ↔ y = 0) ∧
    (y ≠ 0 → ∃ z : Int64, z.toInt = x.toInt - y.toInt * x.toInt.tdiv y.toInt ∧
      intArith .mod x y = .ok (.int z)) ∧
    (y.toInt = -1 → intArith .mod x y = .ok (.int 0))

theorem mod_exact (x y : Int64) : RemaindersExactly x y := by
  rw [RemaindersExactly, ← eq_neg_one_iff]
  by_cases zero : y = 0
  · subst zero
    simp [intArith]
  · by_cases negated : y = -1
    · have outcome : intArith .mod x y = .ok (.int 0) := by
        simp only [intArith, if_neg zero, if_pos negated]
      refine ⟨by simp [outcome, zero], fun _ => ⟨0, ?_, outcome⟩, fun _ => outcome⟩
      rw [eq_neg_one_iff.mp negated, Int.tdiv_neg, Int.tdiv_one]
      simp
    · have outcome : intArith .mod x y = .ok (.int (x % y)) := by
        simp only [intArith, if_neg zero, if_neg negated]
      refine ⟨by simp [outcome, zero], fun _ => ⟨x % y, ?_, outcome⟩, fun h => absurd h negated⟩
      rw [Int64.toInt_mod, Int.tmod_def]

/-- Negation fails for the least integer only, and is exact otherwise. -/
def NegatesExactly (x : Int64) : Prop :=
  ((∃ fault, negate (.int x) = .error fault) ↔ x.toInt = -2 ^ 63) ∧
    (x.toInt ≠ -2 ^ 63 → ∃ z : Int64, z.toInt = -x.toInt ∧ negate (.int x) = .ok (.int z))

theorem negate_exact (x : Int64) : NegatesExactly x := by
  unfold NegatesExactly
  simp only [ne_eq, ← eq_minValue_iff]
  by_cases least : x = Int64.minValue
  · have outcome : negate (.int x) = .error (.negationOverflow x.toInt) := if_pos least
    refine ⟨?_, fun other => absurd least other⟩
    exact ⟨fun _ => least, fun _ => ⟨_, outcome⟩⟩
  · have outcome : negate (.int x) = .ok (.int (-x)) := if_neg least
    refine ⟨by simp [outcome, least], fun _ => ⟨-x, ?_, outcome⟩⟩
    have range := inRange_toInt x
    rw [Int64.toInt_neg]
    apply bmod_of_inRange
    rw [eq_minValue_iff] at least
    unfold InRange at *
    omega

/-- Integer arithmetic is exact or fails: sums, differences and products overflow
exactly where 64 bits do not hold the result, and division, remainder and
negation fail on the operands named and give the exact result on all others. -/
theorem integer_arithmetic_exact (x y : Int64) :
    ExactOrOverflows .add x y (x.toInt + y.toInt) ∧
      ExactOrOverflows .sub x y (x.toInt - y.toInt) ∧
      ExactOrOverflows .mul x y (x.toInt * y.toInt) ∧
      DividesExactly x y ∧ RemaindersExactly x y ∧ NegatesExactly x :=
  ⟨add_exactOrOverflows x y, sub_exactOrOverflows x y, mul_exactOrOverflows x y, div_exact x y,
    mod_exact x y, negate_exact x⟩

end ScriptKernel.MiniRust
