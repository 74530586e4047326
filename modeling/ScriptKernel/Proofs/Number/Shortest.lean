import ScriptKernel.Proofs.Number.Rounding
import ScriptKernel.Proofs.Number.Texts

/-!
The decimal written for a number rounds to the number. Every decimal that is
tried is tested against the interval of the values that do, the digits taken
off behind it change its exponent only, and reading rounds its exact value.
-/

namespace ScriptKernel.Decimal

open Binary64 (Parts Regular Nearest twoTo cast_twoTo zpow_split)

def Scaled.value (d : Scaled) : ℚ := d.digits * 10 ^ d.exponent

theorem cast_tenTo (n : Nat) : ((tenTo n : Nat) : ℚ) = 10 ^ n :=
  Nat.cast_pow 10 n

theorem tenTo_pos (n : Nat) : 0 < tenTo n :=
  Nat.pow_pos (by decide)

theorem Scaled.value_eq_div (d : Scaled) :
    d.value = ((d.digits * tenTo d.exponent.toNat : Nat) : ℚ) / (tenTo (-d.exponent).toNat : Nat) := by
  rw [value, zpow_split, Nat.cast_mul, cast_tenTo, cast_tenTo, mul_div_assoc]

theorem Interval.le_iff (bound unit : Nat) (positive : 0 < unit) (d : Scaled) :
    bound * tenTo (-d.exponent).toNat ≤ d.digits * tenTo d.exponent.toNat * unit ↔ (bound : ℚ) / unit ≤ d.value := by
  have unit_pos : (0 : ℚ) < unit := Nat.cast_pos.2 positive
  have scale_pos : (0 : ℚ) < (tenTo (-d.exponent).toNat : Nat) := Nat.cast_pos.2 (tenTo_pos _)
  rw [d.value_eq_div, div_le_div_iff₀ unit_pos scale_pos, ← Nat.cast_mul, ← Nat.cast_mul, Nat.cast_le]

theorem Interval.ge_iff (bound unit : Nat) (positive : 0 < unit) (d : Scaled) :
    d.digits * tenTo d.exponent.toNat * unit ≤ bound * tenTo (-d.exponent).toNat ↔ d.value ≤ (bound : ℚ) / unit := by
  have unit_pos : (0 : ℚ) < unit := Nat.cast_pos.2 positive
  have scale_pos : (0 : ℚ) < (tenTo (-d.exponent).toNat : Nat) := Nat.cast_pos.2 (tenTo_pos _)
  rw [d.value_eq_div, div_le_div_iff₀ scale_pos unit_pos, ← Nat.cast_mul, ← Nat.cast_mul, Nat.cast_le]

theorem Interval.holds_bounds {i : Interval} {d : Scaled} (positive : 0 < i.unit) (held : i.holds d) :
    (i.low : ℚ) / i.unit ≤ d.value ∧ d.value ≤ (i.high : ℚ) / i.unit ∧
      (i.closed = false → (i.low : ℚ) / i.unit < d.value ∧ d.value < (i.high : ℚ) / i.unit) := by
  have low := Interval.le_iff i.low i.unit positive d
  have low' := Interval.ge_iff i.low i.unit positive d
  have high := Interval.ge_iff i.high i.unit positive d
  have high' := Interval.le_iff i.high i.unit positive d
  rw [holds] at held
  by_cases closed : i.closed = true
  · rw [if_pos closed, Bool.and_eq_true, decide_eq_true_eq, decide_eq_true_eq] at held
    refine ⟨low.1 held.1, high.1 held.2, fun isOpen => ?_⟩
    rw [closed] at isOpen
    contradiction
  · rw [if_neg closed, Bool.and_eq_true, decide_eq_true_eq, decide_eq_true_eq] at held
    obtain ⟨above, below⟩ := held
    refine ⟨low.1 above.le, high.1 below.le, fun _ => ⟨?_, ?_⟩⟩
    · exact not_le.1 fun least => not_lt.2 (low'.2 least) above
    · exact not_le.1 fun most => not_lt.2 (high'.2 most) below

theorem Interval.of_div (bound : Nat) (exponent : Int) :
    ((bound * twoTo (exponent - 2).toNat : Nat) : ℚ) / (twoTo (2 - exponent).toNat : Nat) =
      bound / 4 * 2 ^ exponent := by
  have opposite : 2 - exponent = -(exponent - 2) := by omega
  have quarter : (2 : ℚ) ^ (exponent - 2) = 2 ^ exponent / 4 := by
    rw [zpow_sub₀ (by norm_num)]
    norm_num
  rw [Nat.cast_mul, cast_twoTo, cast_twoTo, opposite, mul_div_assoc, ← zpow_split, quarter]
  ring

theorem Interval.of_nearest {p : Parts} {d : Scaled} (nonzero : 0 < p.magnitude) (held : (Interval.of p).holds d) :
    Nearest d.value p.magnitude p.exponent := by
  obtain ⟨low, high, inside⟩ := Interval.holds_bounds (Binary64.twoTo_pos _) held
  have two_le : 2 ≤ 4 * p.magnitude := by omega
  have one_le : 1 ≤ 4 * p.magnitude := by omega
  have gap : (0 : ℚ) < 2 ^ p.exponent := by positivity
  simp only [Interval.of, Interval.of_div] at low high inside
  push_cast at high inside
  by_cases narrow : p.magnitude = twoTo 52 ∧ -1074 < p.exponent
  · rw [if_pos narrow, Nat.cast_sub one_le] at low
    push_cast at low
    have near : ((p.magnitude : ℚ) - 1 / 4) * 2 ^ p.exponent ≤ d.value := by linarith
    refine ⟨by linarith, fun _ _ => near, by linarith, fun odd => ?_⟩
    rw [narrow.1] at odd
    exact absurd odd (by decide)
  · rw [if_neg narrow, Nat.cast_sub two_le] at low inside
    push_cast at low inside
    refine ⟨by linarith, fun exact above => absurd ⟨exact, above⟩ narrow, by linarith, fun odd => ?_⟩
    have isOpen : (p.magnitude % 2 == 0) = false := by
      rw [odd]
      rfl
    obtain ⟨above, below⟩ := inside isOpen
    exact ⟨by linarith, by linarith⟩

theorem Interval.withDigits?_holds {i : Interval} {scale : Int} {count : Nat} {d : Scaled}
    (found : i.withDigits? scale count = some d) : i.holds d := by
  rw [withDigits?] at found
  simp only at found
  split at found
  next below =>
    split at found
    next above =>
      obtain rfl := Option.some.inj found
      rw [Bool.and_eq_true] at above
      exact above.1
    next =>
      obtain rfl := Option.some.inj found
      exact below
  next =>
    split at found
    next above =>
      obtain rfl := Option.some.inj found
      exact above
    next => contradiction

theorem Scaled.strip_value (steps : Nat) (d : Scaled) : (d.strip steps).value = d.value := by
  induction steps generalizing d with
  | zero => rfl
  | succ steps ih =>
    rw [strip]
    split
    next trailing =>
      have whole : d.digits = d.digits / 10 * 10 := by omega
      have digits : (d.digits : ℚ) = (d.digits / 10 : Nat) * 10 := by exact_mod_cast whole
      rw [ih, value, value, digits, zpow_add₀ (by norm_num), zpow_one]
      ring
    next => rfl

theorem exact_value (magnitude : Nat) (exponent : Int) :
    (⟨magnitude * twoTo exponent.toNat * Nat.pow 5 (-exponent).toNat, min exponent 0⟩ : Scaled).value =
      magnitude * 2 ^ exponent := by
  have five : ((Nat.pow 5 (-exponent).toNat : Nat) : ℚ) = 5 ^ (-exponent).toNat := Nat.cast_pow 5 _
  rw [Scaled.value, Nat.cast_mul, Nat.cast_mul, cast_twoTo, five]
  obtain ⟨n, rfl | rfl⟩ := exponent.eq_nat_or_neg
  · simp
  · have least : min (-(n : Int)) 0 = -(n : Int) := min_eq_left (by omega)
    have ten : (10 : ℚ) = 2 * 5 := by norm_num
    simp only [least, zpow_neg, zpow_natCast, ten, mul_pow]
    field_simp
    simp

theorem exact_nearest {magnitude : Nat} {exponent : Int} : Nearest (magnitude * 2 ^ exponent) magnitude exponent := by
  have gap : (0 : ℚ) < 2 ^ exponent := by positivity
  exact ⟨by linarith, fun _ _ => by linarith, by linarith, fun _ => ⟨by linarith, by linarith⟩⟩

theorem shortest_nearest {p : Parts} (nonzero : 0 < p.magnitude) :
    Nearest (shortest p).value p.magnitude p.exponent := by
  have isNumber : ¬p.magnitude = 0 := by omega
  rw [shortest, if_neg isNumber, Scaled.strip_value]
  cases found : (List.range 17).findSome? fun n => (Interval.of p).withDigits? (Interval.of p).scale (n + 1) with
  | none =>
    rw [Option.getD_none, exact_value]
    exact exact_nearest
  | some d =>
    obtain ⟨n, -, tried⟩ := List.exists_of_findSome?_eq_some found
    exact Interval.of_nearest nonzero (Interval.withDigits?_holds tried)

theorem Scaled.value_bounds {d : Scaled} (nonzero : d.digits ≠ 0) :
    (10 : ℚ) ^ ((Nat.toDigits 10 d.digits).length + d.exponent - 1) ≤ d.value ∧
      d.value < 10 ^ ((Nat.toDigits 10 d.digits).length + d.exponent) := by
  obtain ⟨n, length⟩ : ∃ n, (Nat.toDigits 10 d.digits).length = n + 1 :=
    Nat.exists_eq_succ_of_ne_zero (Nat.pos_iff_ne_zero.1 Nat.length_toDigits_pos)
  have power : (0 : ℚ) < 10 ^ d.exponent := by positivity
  have least : 10 ^ n ≤ d.digits := by
    cases n with
    | zero =>
      rw [pow_zero]
      exact Nat.pos_of_ne_zero nonzero
    | succ n =>
      refine Nat.le_of_not_lt fun less => ?_
      have short := (Nat.length_toDigits_le_iff (b := 10) (by decide) (Nat.succ_pos n)).2 less
      omega
  have most : d.digits < 10 ^ (n + 1) :=
    (Nat.length_toDigits_le_iff (b := 10) (by decide) (Nat.succ_pos n)).1 length.le
  have shift : ((n + 1 : Nat) : Int) + d.exponent - 1 = n + d.exponent := by omega
  rw [length, shift, zpow_add₀ (by norm_num), zpow_add₀ (by norm_num), zpow_natCast, zpow_natCast, value]
  constructor
  · exact mul_le_mul_of_nonneg_right (by exact_mod_cast least) power.le
  · exact mul_lt_mul_of_pos_right (by exact_mod_cast most) power

theorem two_zpow_lt_ten : (2 : ℚ) ^ (1200 : Int) < 10 ^ (400 : Int) := by
  have cube : (2 : ℚ) ^ (1200 : Int) = (2 ^ 3) ^ 400 := by
    rw [← pow_mul]
    rfl
  rw [cube]
  exact pow_lt_pow_left₀ (by norm_num) (by norm_num) (by norm_num)

theorem ten_zpow_lt_two : (10 : ℚ) ^ (-400 : Int) < 2 ^ (-1200 : Int) := by
  rw [zpow_neg, zpow_neg]
  exact inv_strictAnti₀ (by positivity) two_zpow_lt_ten

theorem Scaled.toFloat_nearest {d : Scaled} {magnitude : Nat} {exponent : Int} (negative : Bool)
    (nonzero : 0 < magnitude) (regular : Regular magnitude exponent) (near : Nearest d.value magnitude exponent) :
    d.toFloat negative = Binary64.signed negative (Binary64.packed magnitude exponent) := by
  have positive := near.pos nonzero
  have digits : d.digits ≠ 0 := by
    intro zero
    rw [value, zero, Nat.cast_zero, zero_mul] at positive
    exact lt_irrefl _ positive
  obtain ⟨atLeast, under⟩ := Scaled.value_bounds digits
  have notSmall : ¬(d.digits = 0 ∨ ((Nat.toDigits 10 d.digits).length : Int) + d.exponent < -400) := by
    rintro (zero | small)
    · exact digits zero
    · have whole : (1 : ℚ) ≤ magnitude := Nat.one_le_cast.2 nonzero
      have half : (1 / 2 : ℚ) ≤ magnitude - 1 / 2 := by linarith
      have lowest : (2 : ℚ) ^ (-1074 : Int) ≤ 2 ^ exponent := zpow_le_zpow_right₀ (by norm_num) regular.least
      have less : d.value < 10 ^ (-400 : Int) := under.trans_le (zpow_le_zpow_right₀ (by norm_num) small.le)
      have unit : (2 : ℚ) ^ (-1200 : Int) ≤ 1 / 2 * 2 ^ (-1074 : Int) := by
        rw [one_div, ← zpow_neg_one, ← zpow_add₀ (by norm_num)]
        exact zpow_le_zpow_right₀ (by norm_num) (by decide)
      have bound := (mul_le_mul half lowest (by positivity) (by linarith)).trans near.low
      exact absurd (unit.trans bound) (not_le.2 (less.trans ten_zpow_lt_two))
  have notLarge : ¬400 < ((Nat.toDigits 10 d.digits).length : Int) + d.exponent := by
    intro large
    have small : (magnitude : ℚ) + 1 ≤ 2 ^ 53 := by
      rw [← cast_twoTo]
      exact_mod_cast regular.small
    have highest : (2 : ℚ) ^ exponent ≤ 2 ^ (971 : Int) := zpow_le_zpow_right₀ (by norm_num) regular.most
    have more : (10 : ℚ) ^ (400 : Int) ≤ d.value := (zpow_le_zpow_right₀ (by norm_num) (by omega)).trans atLeast
    have room : (magnitude : ℚ) + 1 / 2 ≤ 2 ^ 53 := by linarith
    have unit : (2 : ℚ) ^ 53 * 2 ^ (971 : Int) ≤ 2 ^ (1200 : Int) := by
      rw [← zpow_natCast, ← zpow_add₀ (by norm_num)]
      exact zpow_le_zpow_right₀ (by norm_num) (by decide)
    have bound := near.high.trans (mul_le_mul room highest (by positivity) (by positivity))
    exact absurd (more.trans (bound.trans unit)) (not_le.2 two_zpow_lt_ten)
  have ratio : d.toFloat negative =
      Binary64.ofRatio negative (d.digits * tenTo d.exponent.toNat) (tenTo (-d.exponent).toNat) := by
    rw [toFloat]
    simp only [if_neg notSmall, if_neg notLarge]
  rw [value_eq_div] at near
  rw [ratio]
  exact Binary64.ofRatio_nearest negative (tenTo_pos _) nonzero regular near

theorem Scaled.positional_spells (d : Scaled) :
    NumberText d.positional ∧
      ∃ e : Scaled, e.value = d.value ∧ decimal? false d.positional = some (e.toFloat false) := by
  by_cases whole : 0 ≤ d.exponent
  · obtain ⟨plain, spelled⟩ := positional_whole whole
    refine ⟨plain, _, ?_, spelled⟩
    have noPlaces : (-d.exponent).toNat = 0 := by omega
    rw [d.value_eq_div, noPlaces, value, zpow_zero, mul_one, cast_tenTo, pow_zero, div_one]
  · obtain ⟨plain, spelled⟩ := positional_fraction (not_le.1 whole)
    exact ⟨plain, d, rfl, spelled⟩

theorem isInfinite_signed {bits : Nat} (most : bits ≤ 2047 * twoTo 52) :
    Binary64.isInfinite (Binary64.signed false bits) = (bits == 2047 * twoTo 52) := by
  have bound : bits ≤ 2047 * 2 ^ 52 := most
  have small : bits % twoTo 63 = bits := by
    refine Nat.mod_eq_of_lt ?_
    change bits < 2 ^ 63
    omega
  rw [Binary64.isInfinite, Binary64.toBits_signed most, small]

theorem decimal?_shortest {p : Binary64.Parts} (regular : Binary64.Regular p.magnitude p.exponent) :
    NumberText (shortest p).positional ∧
      decimal? false (shortest p).positional = some (Binary64.signed false (Binary64.packed p.magnitude p.exponent)) := by
  obtain ⟨plain, e, sameValue, spelled⟩ := (shortest p).positional_spells
  refine ⟨plain, ?_⟩
  rw [spelled]
  congr 1
  rcases Nat.eq_zero_or_pos p.magnitude with empty | nonzero
  · have none : e.digits = 0 := by
      have zero : e.value = 0 := by
        rw [sameValue, shortest, if_pos empty, Scaled.value, Nat.cast_zero, zero_mul]
      rw [Scaled.value, mul_eq_zero, Nat.cast_eq_zero] at zero
      exact zero.resolve_right (zpow_ne_zero _ (by norm_num))
    rw [Scaled.toFloat, if_pos (Or.inl none), empty]
    rfl
  · have near := shortest_nearest nonzero
    rw [← sameValue] at near
    exact Scaled.toFloat_nearest false nonzero regular near

theorem read?_render {bits : Nat} (finite : bits < 2047 * twoTo 52) :
    NumberText (render (Binary64.signed false bits)).toList ∧
      read? (render (Binary64.signed false bits)) = some (Binary64.signed false bits) := by
  obtain ⟨magnitude, exponent, parts, regular, sameBits⟩ := Binary64.parts?_signed finite
  have text : render (Binary64.signed false bits) =
      String.ofList (shortest ⟨false, magnitude, exponent⟩).positional := by
    rw [render, parts]
    rfl
  obtain ⟨plain, spelled⟩ := decimal?_shortest (p := ⟨false, magnitude, exponent⟩) regular
  have isFinite : Binary64.isInfinite (Binary64.signed false bits) = false := by
    rw [isInfinite_signed finite.le]
    exact beq_false_of_ne finite.ne
  refine ⟨by rwa [text, String.toList_ofList], ?_⟩
  rw [text, read?_number plain, spelled, Option.bind_some, sameBits, isFinite]
  rfl

theorem packed_le (magnitude : Nat) (exponent : Int) : Binary64.packed magnitude exponent ≤ 2047 * twoTo 52 := by
  rw [Binary64.packed]
  split
  next small =>
    change magnitude < 2 ^ 52 at small
    change magnitude ≤ 2047 * 2 ^ 52
    omega
  next => exact min_le_right _ _

theorem read?_finite {text : List Char} {x : Float} (plain : NumberText text)
    (read : read? (String.ofList text) = some x) : ∃ bits < 2047 * twoTo 52, x = Binary64.signed false bits := by
  obtain ⟨d, spelled⟩ := plain.decimal
  obtain ⟨bits, most, value⟩ : ∃ bits ≤ 2047 * twoTo 52, d.toFloat false = Binary64.signed false bits := by
    rw [Scaled.toFloat]
    split
    · exact ⟨0, Nat.zero_le _, rfl⟩
    · split
      · exact ⟨_, le_rfl, rfl⟩
      · exact ⟨_, packed_le _ _, rfl⟩
  rw [read?_number plain, spelled, Option.bind_some, value, isInfinite_signed most] at read
  split at read
  next => contradiction
  next finite =>
    exact ⟨bits, lt_of_le_of_ne most (fun same => finite (beq_iff_eq.2 same)), (Option.some.inj read).symm⟩

end ScriptKernel.Decimal
