import Mathlib.Algebra.Order.Field.Power
import Mathlib.Data.Rat.Cast.Order
import Mathlib.Tactic.FieldSimp
import Mathlib.Tactic.Linarith
import Mathlib.Tactic.NormNum
import Mathlib.Tactic.Positivity
import Mathlib.Tactic.Ring
import ScriptKernel.Proofs.Number.Bits

/-!
Rounding a quotient. A quotient that lies closer to a number than to its
neighbours, or half way to one of them when the magnitude is even, is rounded
to that number.
-/

namespace ScriptKernel.Binary64

theorem roundDiv_eq {num den q : Nat} (positive : 0 < den) (low : 2 * (q * den) ≤ 2 * num + den)
    (high : 2 * num ≤ 2 * (q * den) + den)
    (inside : q % 2 = 1 → 2 * (q * den) < 2 * num + den ∧ 2 * num < 2 * (q * den) + den) :
    roundDiv num den = q := by
  have split : den * (num / den) + num % den = num := Nat.div_add_mod num den
  have below : num % den < den := Nat.mod_lt num positive
  rw [roundDiv]
  generalize num / den = a at split ⊢
  generalize num % den = r at split below ⊢
  rw [Nat.mul_comm] at split
  -- The magnitude is the whole part or the next number.
  have least : a ≤ q := by
    by_contra less
    have step : (q + 1) * den ≤ a * den := Nat.mul_le_mul_right den (by omega)
    rw [Nat.succ_mul] at step
    omega
  have most : q ≤ a + 1 := by
    by_contra more
    have step : (a + 1 + 1) * den ≤ q * den := Nat.mul_le_mul_right den (by omega)
    rw [Nat.succ_mul, Nat.succ_mul] at step
    omega
  obtain rfl | rfl : q = a ∨ q = a + 1 := by omega
  · have stays : ¬(den < 2 * r ∨ 2 * r = den ∧ q % 2 = 1) := by omega
    exact if_neg stays
  · have next : (a + 1) * den = a * den + den := Nat.succ_mul a den
    have goes : den < 2 * r ∨ 2 * r = den ∧ a % 2 = 1 := by omega
    exact if_pos goes

theorem zpow_split (b : ℚ) (k : Int) : b ^ k = b ^ k.toNat / b ^ (-k).toNat := by
  obtain ⟨n, rfl | rfl⟩ := k.eq_nat_or_neg
  · simp
  · simp

theorem zpow_add_nat {b : ℚ} (positive : 0 < b) (k : Int) (n : Nat) : b ^ (k + n) = b ^ n * b ^ k := by
  rw [zpow_add₀ positive.ne', zpow_natCast, mul_comm]

theorem cast_twoTo (n : Nat) : ((twoTo n : Nat) : ℚ) = 2 ^ n :=
  Nat.cast_pow 2 n

theorem twoTo_pos (n : Nat) : 0 < twoTo n :=
  Nat.pow_pos (by decide)

theorem zpow_le_div {num den : Nat} (positive : 0 < den) (k : Int) :
    (2 : ℚ) ^ k ≤ num / den ↔ den * twoTo k.toNat ≤ num * twoTo (-k).toNat := by
  have den_pos : (0 : ℚ) < den := Nat.cast_pos.2 positive
  have scale_pos : (0 : ℚ) < 2 ^ (-k).toNat := by positivity
  rw [zpow_split, div_le_div_iff₀ scale_pos den_pos, ← cast_twoTo, ← cast_twoTo, ← Nat.cast_mul,
    ← Nat.cast_mul, Nat.cast_le, Nat.mul_comm]

theorem bitLength_bounds {n : Nat} (positive : 0 < n) :
    (2 : ℚ) ^ ((bitLength n : Int) - 1) ≤ n ∧ (n : ℚ) < 2 ^ (bitLength n : Int) := by
  have nonzero : n ≠ 0 := by omega
  have count : (bitLength n : Int) - 1 = (n.log2 : Nat) := by
    rw [bitLength, if_neg nonzero]
    omega
  have next : (bitLength n : Int) = (n.log2 + 1 : Nat) := by
    rw [bitLength, if_neg nonzero]
  rw [count, next, zpow_natCast, zpow_natCast]
  constructor
  · exact_mod_cast Nat.log2_self_le nonzero
  · exact_mod_cast Nat.lt_log2_self

theorem exponentFor_bounds {num den : Nat} (num_pos : 0 < num) (den_pos : 0 < den) :
    -1074 ≤ exponentFor num den ∧ (num / den : ℚ) < 2 ^ (exponentFor num den + 53) ∧
      (exponentFor num den = -1074 ∨ (2 : ℚ) ^ (exponentFor num den + 52) ≤ num / den) := by
  have den_pos' : (0 : ℚ) < den := Nat.cast_pos.2 den_pos
  obtain ⟨num_low, num_high⟩ := bitLength_bounds num_pos
  obtain ⟨den_low, den_high⟩ := bitLength_bounds den_pos
  rw [exponentFor]
  generalize guess : (bitLength num : Int) - bitLength den - 53 = k
  have reach : (2 : ℚ) ^ (k + 52) ≤ num / den := by
    have split : k + 52 = (bitLength num : Int) - 1 - bitLength den := by omega
    rw [split, zpow_sub₀ (by norm_num)]
    exact div_le_div₀ (by positivity) num_low den_pos' den_high.le
  have under : (num / den : ℚ) < 2 ^ (k + 54) := by
    have split : k + 54 = (bitLength num : Int) - (bitLength den - 1) := by omega
    rw [split, zpow_sub₀ (by norm_num)]
    exact div_lt_div₀ num_high den_low (by positivity) (by positivity)
  have test := @zpow_le_div num den den_pos (k + 53)
  have exact_bounds : ∀ exact : Int, (2 : ℚ) ^ (exact + 52) ≤ num / den → (num / den : ℚ) < 2 ^ (exact + 53) →
      -1074 ≤ max exact (-1074) ∧ (num / den : ℚ) < 2 ^ (max exact (-1074) + 53) ∧
        (max exact (-1074) = -1074 ∨ (2 : ℚ) ^ (max exact (-1074) + 52) ≤ num / den) := by
    intro exact least most
    refine ⟨le_max_right _ _, most.trans_le (zpow_le_zpow_right₀ (by norm_num) (by omega)), ?_⟩
    rcases le_total exact (-1074) with low | high
    · exact Or.inl (max_eq_right low)
    · rw [max_eq_left high]
      exact Or.inr least
  by_cases full : den * twoTo (k + 53).toNat ≤ num * twoTo (-(k + 53)).toNat
  · simp only [if_pos full]
    apply exact_bounds
    · rw [add_assoc]
      exact test.2 full
    · rw [add_assoc]
      exact under
  · simp only [if_neg full]
    exact exact_bounds k reach (not_le.1 fun least => full (test.1 least))

/-- A value that rounds to `magnitude * 2 ^ exponent`: not more than half a gap
away from it, less than that when the magnitude is odd. The gap below a power
of two is half the gap above, the least numbers apart. -/
structure Nearest (value : ℚ) (magnitude : Nat) (exponent : Int) : Prop where
  low : (magnitude - 1 / 2) * 2 ^ exponent ≤ value
  narrow : magnitude = twoTo 52 → -1074 < exponent → (magnitude - 1 / 4) * 2 ^ exponent ≤ value
  high : value ≤ (magnitude + 1 / 2) * 2 ^ exponent
  inside : magnitude % 2 = 1 →
    (magnitude - 1 / 2) * 2 ^ exponent < value ∧ value < (magnitude + 1 / 2) * 2 ^ exponent

theorem Nearest.pos {value : ℚ} {magnitude : Nat} {exponent : Int} (near : Nearest value magnitude exponent)
    (nonzero : 0 < magnitude) : 0 < value := by
  have whole : (1 : ℚ) ≤ magnitude := Nat.one_le_cast.2 nonzero
  have gap : (0 : ℚ) < 2 ^ exponent := by positivity
  have half : (0 : ℚ) < (magnitude - 1 / 2) * 2 ^ exponent := mul_pos (by linarith) gap
  exact half.trans_le near.low

theorem roundDiv_scaled {num den q : Nat} {exponent : Int} (positive : 0 < den)
    (low : (q - 1 / 2) * 2 ^ exponent ≤ (num / den : ℚ)) (high : (num / den : ℚ) ≤ (q + 1 / 2) * 2 ^ exponent)
    (inside : q % 2 = 1 →
      (q - 1 / 2) * 2 ^ exponent < (num / den : ℚ) ∧ (num / den : ℚ) < (q + 1 / 2) * 2 ^ exponent) :
    roundDiv (num * twoTo (-exponent).toNat) (den * twoTo exponent.toNat) = q := by
  have den_pos : (0 : ℚ) < den := Nat.cast_pos.2 positive
  have factor_pos : (0 : ℚ) < 2 ^ exponent.toNat := by positivity
  have scale_pos : (0 : ℚ) < 2 ^ (-exponent).toNat := by positivity
  simp only [zpow_split, ← mul_div_assoc] at low high inside
  rw [div_le_div_iff₀ scale_pos den_pos] at low
  rw [div_le_div_iff₀ den_pos scale_pos] at high
  rw [div_lt_div_iff₀ scale_pos den_pos, div_lt_div_iff₀ den_pos scale_pos] at inside
  have scaled_pos : 0 < den * twoTo exponent.toNat := Nat.mul_pos positive (twoTo_pos _)
  simp only [← cast_twoTo] at low high inside
  refine roundDiv_eq scaled_pos ?_ ?_ fun odd => ⟨?_, ?_⟩
  · have bound : (2 : ℚ) * (q * (den * twoTo exponent.toNat)) ≤
        2 * (num * twoTo (-exponent).toNat) + den * twoTo exponent.toNat := by linarith
    exact_mod_cast bound
  · have bound : (2 : ℚ) * (num * twoTo (-exponent).toNat) ≤
        2 * (q * (den * twoTo exponent.toNat)) + den * twoTo exponent.toNat := by linarith
    exact_mod_cast bound
  · have bound : (2 : ℚ) * (q * (den * twoTo exponent.toNat)) <
        2 * (num * twoTo (-exponent).toNat) + den * twoTo exponent.toNat := by linarith [(inside odd).1]
    exact_mod_cast bound
  · have bound : (2 : ℚ) * (num * twoTo (-exponent).toNat) <
        2 * (q * (den * twoTo exponent.toNat)) + den * twoTo exponent.toNat := by linarith [(inside odd).2]
    exact_mod_cast bound

theorem packed_carry {exponent : Int} (least : -1074 ≤ exponent) :
    packed (twoTo 53) exponent = packed (twoTo 52) (exponent + 1) := by
  have double : twoTo 53 = twoTo 52 + twoTo 52 := by decide
  have next : (exponent + 1 + 1075).toNat = (exponent + 1075).toNat + 1 := by omega
  have above : ¬twoTo 52 + twoTo 52 < twoTo 52 := by omega
  rw [double, packed, packed, if_neg above, if_neg (lt_irrefl _), next, Nat.add_sub_cancel,
    Nat.sub_self, Nat.succ_mul (exponent + 1075).toNat, Nat.add_zero]

theorem ofRatio_nearest {num den magnitude : Nat} {exponent : Int} (negative : Bool) (positive : 0 < den)
    (nonzero : 0 < magnitude) (regular : Regular magnitude exponent)
    (near : Nearest (num / den) magnitude exponent) :
    ofRatio negative num den = signed negative (packed magnitude exponent) := by
  have num_pos : 0 < num := by
    refine Nat.pos_of_ne_zero fun zero => ?_
    have value_pos := near.pos nonzero
    rw [zero, Nat.cast_zero, zero_div] at value_pos
    exact lt_irrefl _ value_pos
  obtain ⟨least, under, reach⟩ := exponentFor_bounds num_pos positive
  have gap : (0 : ℚ) < 2 ^ exponent := by positivity
  rw [ofRatio]
  generalize exponentFor num den = found at least under reach ⊢
  rcases lt_trichotomy found exponent with below | rfl | above
  · -- Only the gap below a power of two has a smaller exponent.
    have full : twoTo 52 ≤ magnitude := by
      refine regular.full.resolve_right fun isLeast => ?_
      omega
    have under' : (num / den : ℚ) < 2 ^ 52 * 2 ^ exponent := by
      rw [← zpow_add_nat (by norm_num)]
      exact under.trans_le (zpow_le_zpow_right₀ (by norm_num) (by omega))
    have small : (magnitude : ℚ) - 1 / 2 < 2 ^ 52 :=
      lt_of_mul_lt_mul_right (near.low.trans_lt under') gap.le
    have exact : magnitude = twoTo 52 := by
      refine le_antisymm ?_ full
      have next : (magnitude : ℚ) < (twoTo 52 + 1 : Nat) := by
        rw [Nat.cast_add, cast_twoTo, Nat.cast_one]
        linarith
      exact Nat.lt_succ_iff.1 (Nat.cast_lt.1 next)
    have narrow := near.narrow exact (by omega)
    have high := under
    subst exact
    rw [cast_twoTo] at narrow
    have adjacent : found + 1 = exponent := by
      by_contra apart
      have far : (num / den : ℚ) < 2 ^ 51 * 2 ^ exponent := by
        rw [← zpow_add_nat (by norm_num)]
        exact under.trans_le (zpow_le_zpow_right₀ (by norm_num) (by omega))
      have less := lt_of_mul_lt_mul_right (narrow.trans_lt far) gap.le
      norm_num at less
    subst adjacent
    have double : (2 : ℚ) ^ (found + 1) = 2 * 2 ^ found := by
      rw [zpow_add₀ (by norm_num), zpow_one, mul_comm]
    rw [double] at narrow
    have wide : (2 : ℚ) ^ (found + 53) = 2 ^ 53 * 2 ^ found := zpow_add_nat (by norm_num) found 53
    rw [wide] at high
    have unit : (0 : ℚ) < 2 ^ found := by positivity
    have rounded := @roundDiv_scaled num den (twoTo 53) found positive (by rw [cast_twoTo]; linarith)
      (by rw [cast_twoTo]; linarith) (fun odd => absurd odd (by decide))
    rw [rounded, packed_carry least]
  · rw [roundDiv_scaled positive near.low near.high near.inside]
  · -- A larger exponent needs more binary digits than there are.
    have large : (2 : ℚ) ^ (found + 52) ≤ num / den := reach.resolve_left (by have := regular.least; omega)
    have atLeast : (2 : ℚ) ^ 53 * 2 ^ exponent ≤ 2 ^ (found + 52) := by
      rw [← zpow_add_nat (by norm_num)]
      exact zpow_le_zpow_right₀ (by norm_num) (by omega)
    have most : (2 : ℚ) ^ 53 ≤ magnitude + 1 / 2 :=
      le_of_mul_le_mul_right ((atLeast.trans large).trans near.high) gap
    have small : (magnitude : ℚ) + 1 ≤ 2 ^ 53 := by
      rw [← cast_twoTo]
      exact_mod_cast regular.small
    linarith

end ScriptKernel.Binary64
