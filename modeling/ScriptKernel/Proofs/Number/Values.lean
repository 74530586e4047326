import ScriptKernel.Proofs.Number.Shortest

namespace ScriptKernel.Binary64

open Float.Model (Format UnpackedFloat)
open Float.Model.UnpackedFloat

def Parts.value (p : Parts) : ℚ :=
  (if p.negative then -1 else 1) * (p.magnitude * 2 ^ p.exponent)

/-- What a number is worth; infinities and the undefined number are worth nothing. -/
def value? (x : Float) : Option ℚ :=
  (parts? x).map Parts.value

def Proper : UnpackedFloat → Prop
  | .finite _ magnitude exponent _ => Regular magnitude exponent
  | _ => True

def worth? : UnpackedFloat → Option ℚ
  | .zero _ => some 0
  | .finite sign magnitude exponent _ => some (sign.apply magnitude * 2 ^ exponent)
  | _ => none

def signOf (negative : Bool) : Sign :=
  if negative then .negative else .positive

theorem signOf_apply (negative : Bool) (n : Int) : (signOf negative).apply n = (if negative then -1 else 1) * n := by
  cases negative with
  | false => exact (Int.one_mul n).symm
  | true => exact Int.neg_eq_neg_one_mul n

theorem unpackSign_toNat (v : BitVec 64) : (@unpackSign Format.binary64 v).toNat = v.toNat / 2 ^ 63 := by
  have bound : v.toNat < 2 ^ 64 := v.isLt
  change (v.extractLsb 63 63).toNat = _
  rw [BitVec.extractLsb_toNat, Nat.shiftRight_eq_div_pow]
  omega

theorem sign_ofBitVec (v : BitVec 64) :
    Sign.ofBitVec (@unpackSign Format.binary64 v) = signOf (v.toNat / 2 ^ 63 == 1) := by
  have sign (s : BitVec 1) : Sign.ofBitVec s = signOf (s.toNat == 1) := by
    obtain rfl | rfl : s = 0#1 ∨ s = 1#1 := by
      revert s
      decide
    · rfl
    · rfl
  rw [sign, unpackSign_toNat]

theorem unpackExponent_eq_iff (v : BitVec 64) (e : BitVec 11) :
    @unpackExponent Format.binary64 v = e ↔ v.toNat / 2 ^ 52 % 2 ^ 11 = e.toNat := by
  rw [← unpackExponent_toNat]
  exact BitVec.toNat_inj.symm

theorem unpackMantissa_eq_zero_iff (v : BitVec 64) :
    @unpackMantissa Format.binary64 v = 0#52 ↔ v.toNat % 2 ^ 52 = 0 := by
  rw [← unpackMantissa_toNat]
  exact BitVec.toNat_inj.symm

theorem toNat_leading (mantissa : BitVec 52) : (1#1 ++ mantissa).toNat = 2 ^ 52 + mantissa.toNat := by
  have joined := Nat.two_pow_add_eq_or_of_lt mantissa.isLt 1
  rw [BitVec.toNat_append, BitVec.toNat_ofNat, Nat.shiftLeft_eq, Nat.mul_comm, ← joined, Nat.mul_one]

theorem finite_congr {s s' : Sign} {m m' : Nat} {e e' : Int} {pos : 0 < m} {pos' : 0 < m'} (sign : s = s') (magnitude : m = m')
    (exponent : e = e') : UnpackedFloat.finite s m e pos = .finite s' m' e' pos' := by
  subst sign magnitude exponent
  rfl

theorem unpack_of_parts {x : Float} {p : Parts} (parts : parts? x = some p) :
    Regular p.magnitude p.exponent ∧ x.toModel.unpack =
      if positive : 0 < p.magnitude then .finite (signOf p.negative) p.magnitude p.exponent positive
      else .zero (signOf p.negative) := by
  let v := x.toBits.toBitVec
  have exponentField := unpackExponent_toNat v
  have mantissaField := unpackMantissa_toNat v
  have sign := sign_ofBitVec v
  have leading := toNat_leading (@unpackMantissa Format.binary64 v)
  change Regular p.magnitude p.exponent ∧ unpack Format.binary64 v = _
  change (if v.toNat / 2 ^ 52 % 2 ^ 11 = 2047 then none
    else if v.toNat / 2 ^ 52 % 2 ^ 11 = 0 then some ⟨v.toNat / 2 ^ 63 == 1, v.toNat % 2 ^ 52, -1074⟩
    else some ⟨v.toNat / 2 ^ 63 == 1, 2 ^ 52 + v.toNat % 2 ^ 52, (v.toNat / 2 ^ 52 % 2 ^ 11 : Nat) - 1075⟩) = some p at parts
  have below : v.toNat % 2 ^ 52 < 2 ^ 52 := Nat.mod_lt _ (by decide)
  have field : v.toNat / 2 ^ 52 % 2 ^ 11 < 2 ^ 11 := Nat.mod_lt _ (by decide)
  by_cases special : v.toNat / 2 ^ 52 % 2 ^ 11 = 2047
  · rw [if_pos special] at parts
    cases parts
  have finite : ¬@unpackExponent Format.binary64 v = -1#11 := fun same => special ((unpackExponent_eq_iff v _).1 same)
  rw [if_neg special] at parts
  by_cases least : v.toNat / 2 ^ 52 % 2 ^ 11 = 0
  · rw [if_pos least] at parts
    cases parts
    have denormal : @unpackExponent Format.binary64 v = 0#11 := (unpackExponent_eq_iff v _).2 least
    refine ⟨⟨?_, le_refl (-1074), (by decide : (-1074 : Int) ≤ 971), Or.inr rfl⟩, ?_⟩
    · change v.toNat % 2 ^ 52 < 2 ^ 53
      omega
    rw [unpack, if_neg finite, if_pos denormal]
    by_cases zero : v.toNat % 2 ^ 52 = 0
    · have none : ¬0 < v.toNat % 2 ^ 52 := by omega
      rw [dif_pos ((unpackMantissa_eq_zero_iff v).2 zero), dif_neg none, sign]
    · have some : 0 < v.toNat % 2 ^ 52 := by omega
      rw [dif_neg (fun same => zero ((unpackMantissa_eq_zero_iff v).1 same)), dif_pos some]
      apply finite_congr sign mantissaField
      rw [exponentField, least]
      rfl
  · rw [if_neg least] at parts
    cases parts
    have normal : ¬@unpackExponent Format.binary64 v = 0#11 := fun same => least ((unpackExponent_eq_iff v _).1 same)
    refine ⟨⟨?_, ?_, ?_, Or.inl (Nat.le_add_right _ _)⟩, ?_⟩
    · change 2 ^ 52 + v.toNat % 2 ^ 52 < 2 ^ 53
      omega
    · dsimp only
      omega
    · dsimp only
      omega
    have some : 0 < 2 ^ 52 + v.toNat % 2 ^ 52 := by omega
    rw [unpack, if_neg finite, if_neg normal, dif_pos some]
    apply finite_congr sign (leading.trans (by rw [mantissaField]))
    rw [exponentField]
    rfl

theorem unpack_of_no_parts {x : Float} (parts : parts? x = none) : worth? x.toModel.unpack = none := by
  let v := x.toBits.toBitVec
  change (if v.toNat / 2 ^ 52 % 2 ^ 11 = 2047 then none
    else if v.toNat / 2 ^ 52 % 2 ^ 11 = 0 then some ⟨v.toNat / 2 ^ 63 == 1, v.toNat % 2 ^ 52, -1074⟩
    else some ⟨v.toNat / 2 ^ 63 == 1, 2 ^ 52 + v.toNat % 2 ^ 52, (v.toNat / 2 ^ 52 % 2 ^ 11 : Nat) - 1075⟩ : Option Parts) = none at parts
  change worth? (unpack Format.binary64 v) = none
  have special : v.toNat / 2 ^ 52 % 2 ^ 11 = 2047 := by
    by_contra finite
    rw [if_neg finite] at parts
    split at parts <;> cases parts
  have infinite : @unpackExponent Format.binary64 v = -1#11 := (unpackExponent_eq_iff v _).2 special
  rw [unpack, if_pos infinite]
  split
  · rfl
  · rfl

theorem value?_eq (x : Float) : value? x = worth? x.toModel.unpack := by
  cases parts : parts? x with
  | none => rw [value?, parts, unpack_of_no_parts parts, Option.map_none]
  | some p =>
    rw [value?, parts, (unpack_of_parts parts).2, Option.map_some, Parts.value]
    by_cases positive : 0 < p.magnitude
    · rw [dif_pos positive, worth?, signOf_apply]
      push_cast
      cases p.negative with
      | false => simp
      | true => simp
    · rw [dif_neg positive, worth?]
      have zero : p.magnitude = 0 := by omega
      simp [zero]

theorem unpack_proper (x : Float) : Proper x.toModel.unpack := by
  cases parts : parts? x with
  | none =>
    have special := unpack_of_no_parts parts
    cases shape : x.toModel.unpack with
    | finite sign magnitude exponent positive =>
      rw [shape] at special
      cases special
    | _ => trivial
  | some p =>
    obtain ⟨regular, shape⟩ := unpack_of_parts parts
    rw [shape]
    split
    · exact regular
    · trivial

theorem log2_mul_two_pow {m : Nat} (positive : 0 < m) (k : Nat) : (m * 2 ^ k).log2 = m.log2 + k := by
  induction k with
  | zero => simp
  | succ k ih =>
    have split : m * 2 ^ (k + 1) = 2 * (m * 2 ^ k) := by ring
    have some : m * 2 ^ k ≠ 0 := by positivity
    rw [split, Nat.log2_two_mul some, ih, Nat.add_assoc]

theorem targetExponent_regular {magnitude : Nat} {exponent : Int} (regular : Regular magnitude exponent)
    (positive : 0 < magnitude) :
    Format.binary64.targetExponent (Float.Model.totalExponent magnitude exponent) = exponent := by
  have small : magnitude < 2 ^ 53 := regular.small
  have digits : magnitude.log2 < 53 := (Nat.log2_lt positive.ne').2 small
  have least := regular.least
  change max ((magnitude.log2 + 1 : Int) + exponent - (53 : Nat)) (-1074) = exponent
  rcases regular.full with full | rfl
  · have full : 52 ≤ magnitude.log2 := (Nat.le_log2 positive.ne').2 full
    omega
  · omega

theorem shifted_exact (m k : Nat) : ExtendedMantissa.ofMantissaAndAccuracy (m * 2 ^ k) .exact >>> k =
    ExtendedMantissa.ofMantissaAndAccuracy m .exact := by
  induction k generalizing m with
  | zero => rw [pow_zero, Nat.mul_one]; rfl
  | succ k ih =>
    have split : m * 2 ^ (k + 1) = m * 2 * 2 ^ k := by ring
    have step : ExtendedMantissa.ofMantissaAndAccuracy (m * 2 ^ (k + 1)) .exact >>> (k + 1) =
        ExtendedMantissa.shiftRightOne (ExtendedMantissa.ofMantissaAndAccuracy (m * 2 ^ (k + 1)) .exact >>> k) := rfl
    rw [step, split, ih]
    simp [ExtendedMantissa.shiftRightOne, ExtendedMantissa.ofMantissaAndAccuracy]

theorem scaled_cases {m n : Nat} {e f : Int} (same : (m * 2 ^ e : ℚ) = n * 2 ^ f) :
    ∃ k : Nat, m = n * 2 ^ k ∧ f = e + k ∨ n = m * 2 ^ k ∧ e = f + k := by
  obtain ⟨k, reach⟩ | ⟨k, reach⟩ : (∃ k : Nat, f = e + k) ∨ ∃ k : Nat, e = f + k := by
    rcases Int.le_total e f with le | le
    · exact Or.inl ((Int.le.dest le).imp fun _ => Eq.symm)
    · exact Or.inr ((Int.le.dest le).imp fun _ => Eq.symm)
  · refine ⟨k, Or.inl ⟨?_, reach⟩⟩
    have unit : (2 : ℚ) ^ e ≠ 0 := by positivity
    rw [reach, zpow_add_nat (by norm_num), ← mul_assoc] at same
    exact_mod_cast mul_right_cancel₀ unit same
  · refine ⟨k, Or.inr ⟨?_, reach⟩⟩
    have unit : (2 : ℚ) ^ f ≠ 0 := by positivity
    rw [reach, zpow_add_nat (by norm_num), ← mul_assoc] at same
    exact_mod_cast (mul_right_cancel₀ unit same).symm

theorem totalExponent_scaled {m n k : Nat} (positive : 0 < n) (e : Int) (scaled : m = n * 2 ^ k) :
    Float.Model.totalExponent m e = Float.Model.totalExponent n (e + k) := by
  have digits := log2_mul_two_pow positive k
  change (m.log2 + 1 : Int) + e = (n.log2 + 1 : Int) + (e + k)
  rw [scaled, digits]
  omega

theorem shiftToTargetExponent_scaled {m n k : Nat} {e : Int} (regular : Regular n (e + k)) (positive : 0 < n)
    (scaled : m = n * 2 ^ k) :
    shiftToTargetExponent Format.binary64 m e .exact = (ExtendedMantissa.ofMantissaAndAccuracy n .exact, e + k) := by
  have amount : (e + k - e).toNat = k := by omega
  rw [shiftToTargetExponent, totalExponent_scaled positive e scaled, targetExponent_regular regular positive]
  simp only [shiftToExponent, amount]
  rw [scaled, shifted_exact]

theorem roundWithAccuracy_scaled (sign : Sign) {m n k : Nat} {e : Int} (regular : Regular n (e + k)) (positive : 0 < n)
    (scaled : m = n * 2 ^ k) :
    roundWithAccuracy Format.binary64 sign m e .exact = .finite sign n (e + k) positive := by
  have first := shiftToTargetExponent_scaled regular positive scaled
  have second : shiftToTargetExponent Format.binary64 n (e + k) .exact =
      (ExtendedMantissa.ofMantissaAndAccuracy n .exact, e + k + (0 : Nat)) :=
    shiftToTargetExponent_scaled (by simpa using regular) positive (by simp)
  have whole : (ExtendedMantissa.ofMantissaAndAccuracy n .exact).roundedMantissa = n := rfl
  rw [roundWithAccuracy]
  simp only [first, whole, second]
  rw [dif_neg (show (ExtendedMantissa.ofMantissaAndAccuracy n .exact).mantissa ≠ 0 from positive.ne')]
  exact finite_congr rfl rfl (add_zero _)

theorem round_exact (sign : Sign) {m n : Nat} {e f : Int} (regular : Regular n f) (positive : 0 < n)
    (same : (m * 2 ^ e : ℚ) = n * 2 ^ f) : UnpackedFloat.round Format.binary64 sign m e = .finite sign n f positive := by
  obtain ⟨k, ⟨scaled, rfl⟩ | ⟨rfl, rfl⟩⟩ := scaled_cases same
  · have target : Format.binary64.targetExponent (Float.Model.totalExponent m e) = e + k := by
      rw [totalExponent_scaled positive e scaled, targetExponent_regular regular positive]
    have none : (e - (e + k)).toNat = 0 := by omega
    rw [UnpackedFloat.round]
    simp only [target, decreaseExponent, none, Nat.shiftLeft_zero]
    have still : e - (0 : Nat) = e := by omega
    rw [still]
    exact roundWithAccuracy_scaled sign regular positive scaled
  · have some : 0 < m := Nat.pos_of_mul_pos_right positive
    have target : Format.binary64.targetExponent (Float.Model.totalExponent m (f + k)) = f := by
      rw [← totalExponent_scaled some f rfl, targetExponent_regular regular positive]
    have amount : (f + k - f).toNat = k := by omega
    rw [UnpackedFloat.round]
    simp only [target, decreaseExponent, amount, Nat.shiftLeft_eq]
    have back : f + k - (k : Nat) = f := by omega
    have regular' : Regular (m * 2 ^ k) (f + (0 : Nat)) := by simpa using regular
    rw [back, roundWithAccuracy_scaled sign regular' positive (by simp)]
    exact finite_congr rfl rfl (add_zero f)

theorem unpack_pack {u : UnpackedFloat} (proper : Proper u) : unpack Format.binary64 (pack Format.binary64 u) = u := by
  cases u with
  | notANumber => exact unpack_packedNaN
  | zero sign => exact unpack_packedZero
  | infinity sign =>
    rw [pack, packedInfinity, unpack]
    simp only [unpackExponent_packComponents, unpackMantissa_packComponents, unpackSign_packComponents, Sign.ofBitVec_toBitVec]
    rfl
  | finite sign magnitude exponent positive =>
    have regular : Regular magnitude exponent := proper
    have small : magnitude < 2 ^ 53 := regular.small
    have least := regular.least
    have most := regular.most
    obtain ⟨biased, known⟩ : ∃ biased : Nat, exponent = biased - 1075 := ⟨(exponent + 1075).toNat, by omega⟩
    have field : (exponent + Format.binary64.exponentBias + Format.binary64.mantissaBitsWithoutImplicit).toNat = biased := by
      change (exponent + (1023 : Nat) + (52 : Nat)).toNat = biased
      omega
    have inRange : ¬2 ^ Format.binary64.exponentBits ≤ biased + 1 := by
      change ¬2 ^ 11 ≤ biased + 1
      omega
    rw [pack]
    simp only [field, if_neg inRange]
    by_cases full : 2 ^ 52 ≤ magnitude
    · have digits : magnitude.log2 + 1 = Format.binary64.mantissaBits := by
        change magnitude.log2 + 1 = 53
        rw [(Nat.log2_eq_iff positive.ne').2 ⟨full, small⟩]
      have exponentField : (BitVec.ofNat 11 biased).toNat = biased := by
        rw [BitVec.toNat_ofNat]
        omega
      have finite : ¬BitVec.ofNat 11 biased = -1#11 := by
        rw [← BitVec.toNat_inj, exponentField]
        change ¬biased = 2047
        omega
      have normal : ¬BitVec.ofNat 11 biased = 0#11 := by
        rw [← BitVec.toNat_inj, exponentField]
        change ¬biased = 0
        omega
      have mantissaField : 2 ^ 52 + (BitVec.ofNat 52 magnitude).toNat = magnitude := by
        rw [BitVec.toNat_ofNat]
        omega
      rw [if_pos digits, unpack]
      simp only [unpackExponent_packComponents, unpackMantissa_packComponents, unpackSign_packComponents,
        Sign.ofBitVec_toBitVec]
      rw [if_neg finite, if_neg normal]
      exact finite_congr rfl ((toNat_leading _).trans mantissaField) (by rw [exponentField, known]; rfl)
    · have isLeast : exponent = -1074 := regular.full.resolve_left full
      have digits : ¬magnitude.log2 + 1 = Format.binary64.mantissaBits := by
        have few := (Nat.log2_lt positive.ne').2 (Nat.lt_of_not_le full)
        change ¬magnitude.log2 + 1 = 53
        omega
      have mantissaField : (BitVec.ofNat 52 magnitude).toNat = magnitude := by
        rw [BitVec.toNat_ofNat]
        omega
      have some : ¬BitVec.ofNat 52 magnitude = 0#52 := by
        rw [← BitVec.toNat_inj, mantissaField]
        change ¬magnitude = 0
        omega
      have finite : ¬0#11 = -1#11 := by decide
      rw [if_neg digits, unpack]
      simp only [unpackExponent_packComponents, unpackMantissa_packComponents, unpackSign_packComponents,
        Sign.ofBitVec_toBitVec]
      rw [if_neg finite, if_pos trivial, dif_neg some]
      exact finite_congr rfl mantissaField (by rw [isLeast]; rfl)

def Representable (q : ℚ) : Prop :=
  ∃ magnitude exponent, Regular magnitude exponent ∧ |q| = magnitude * 2 ^ exponent

/-- An operation with this outcome gives a number worth `q`. -/
def Exactly (u : UnpackedFloat) (q : ℚ) : Prop :=
  Proper u ∧ worth? u = some q

theorem round_exactly (sign : Sign) {m : Nat} {e : Int} {q : ℚ} (positive : 0 < m) (worth : (sign.apply m * 2 ^ e : ℚ) = q)
    (representable : Representable q) : Exactly (UnpackedFloat.round Format.binary64 sign m e) q := by
  obtain ⟨magnitude, exponent, regular, size⟩ := representable
  have unit : (0 : ℚ) < 2 ^ e := by positivity
  have same : (m * 2 ^ e : ℚ) = magnitude * 2 ^ exponent := by
    rw [← size, ← worth]
    cases sign with
    | positive => simp [Sign.apply, abs_mul, abs_of_pos unit]
    | negative => simp [Sign.apply, abs_mul, abs_of_pos unit]
  have some : 0 < magnitude := by
    refine Nat.pos_of_ne_zero fun zero => ?_
    rw [zero, Nat.cast_zero, zero_mul] at same
    have left : (0 : ℚ) < m * 2 ^ e := by positivity
    exact left.ne' same
  rw [round_exact sign regular some same]
  refine ⟨regular, ?_⟩
  rw [worth?, ← worth]
  cases sign with
  | positive => simp [Sign.apply, same]
  | negative => simp [Sign.apply, same]

theorem normalize_exactly (sign : Sign) {m : Int} {e : Int} {q : ℚ} (worth : (m * 2 ^ e : ℚ) = q) (representable : Representable q) :
    Exactly (UnpackedFloat.normalize Format.binary64 m e sign) q := by
  rw [UnpackedFloat.normalize]
  rcases lt_trichotomy m 0 with negative | rfl | positive
  · obtain ⟨n, rfl⟩ : ∃ n : Nat, m = -n := ⟨m.natAbs, by omega⟩
    have below : compare (-(n : Int)) 0 = .lt := Int.compare_eq_lt.2 negative
    rw [below]
    have same : (-(-(n : Int))).toNat = n := by omega
    rw [same]
    exact round_exactly .negative (by omega) (by simpa [Sign.apply] using worth) representable
  · have zero : compare (0 : Int) 0 = .eq := rfl
    rw [zero]
    refine ⟨trivial, ?_⟩
    simp [worth?, ← worth]
  · obtain ⟨n, rfl⟩ : ∃ n : Nat, m = n := ⟨m.natAbs, by omega⟩
    have above : compare (n : Int) 0 = .gt := Int.compare_eq_gt.2 positive
    rw [above]
    exact round_exactly .positive (by omega) (by simpa [Sign.apply] using worth) representable

theorem decreaseExponent_value (sign : Sign) (m : Nat) {e least : Int} (le : least ≤ e) :
    (sign.apply (decreaseExponent m e least).1 * 2 ^ least : ℚ) = sign.apply m * 2 ^ e := by
  obtain ⟨k, rfl⟩ := Int.le.dest le
  have amount : (least + k - least).toNat = k := by omega
  simp only [decreaseExponent, amount, Nat.shiftLeft_eq]
  rw [zpow_add_nat (by norm_num)]
  cases sign with
  | positive => simp [Sign.apply]; ring
  | negative => simp [Sign.apply]; ring

theorem add_exactly {a b : UnpackedFloat} {p q : ℚ} (proper : Proper a) (proper' : Proper b) (worth : worth? a = some p)
    (worth' : worth? b = some q) (representable : Representable (p + q)) :
    Exactly (UnpackedFloat.add Format.binary64 a b) (p + q) := by
  cases a with
  | notANumber => cases worth
  | infinity sign => cases worth
  | zero sign =>
    cases worth
    cases b with
    | notANumber => cases worth'
    | infinity sign' => cases worth'
    | zero sign' =>
      cases worth'
      rw [add_zero]
      simp only [UnpackedFloat.add]
      split
      · exact ⟨trivial, rfl⟩
      · exact ⟨trivial, rfl⟩
    | finite sign' n f positive' =>
      rw [zero_add]
      exact ⟨proper', worth'⟩
  | finite sign m e positive =>
    cases b with
    | notANumber => cases worth'
    | infinity sign' => cases worth'
    | zero sign' =>
      cases worth'
      rw [add_zero]
      exact ⟨proper, worth⟩
    | finite sign' n f positive' =>
      cases worth
      cases worth'
      refine normalize_exactly .positive ?_ representable
      have first := decreaseExponent_value sign m (min_le_left e f)
      have second := decreaseExponent_value sign' n (min_le_right e f)
      simp only [decreaseExponent] at first second
      rw [Int.cast_add, add_mul, first, second]

theorem apply_neg (sign : Sign) (n : Int) : (-sign).apply n = -sign.apply n := by
  cases sign with
  | positive => rfl
  | negative => exact (neg_neg n).symm

theorem sub_eq_add_opposite (a b : UnpackedFloat) :
    UnpackedFloat.sub Format.binary64 a b = UnpackedFloat.add Format.binary64 a b.neg := by
  cases a with
  | _ => cases b with
    | _ => simp [UnpackedFloat.sub, UnpackedFloat.add, UnpackedFloat.neg, apply_neg, Int.sub_eq_add_neg]

theorem neg_exactly {u : UnpackedFloat} {q : ℚ} (proper : Proper u) (worth : worth? u = some q) : Exactly u.neg (-q) := by
  cases u with
  | notANumber => cases worth
  | infinity sign => cases worth
  | zero sign =>
    cases worth
    exact ⟨trivial, rfl⟩
  | finite sign m e positive =>
    cases worth
    refine ⟨proper, ?_⟩
    simp only [UnpackedFloat.neg, worth?, apply_neg, Int.cast_neg, neg_mul]

theorem sub_exactly {a b : UnpackedFloat} {p q : ℚ} (proper : Proper a) (proper' : Proper b) (worth : worth? a = some p)
    (worth' : worth? b = some q) (representable : Representable (p - q)) :
    Exactly (UnpackedFloat.sub Format.binary64 a b) (p - q) := by
  obtain ⟨negProper, negWorth⟩ := neg_exactly proper' worth'
  rw [sub_eq_add_opposite, sub_eq_add_neg]
  exact add_exactly proper negProper worth negWorth (by rwa [← sub_eq_add_neg])

theorem value?_add {x y : Float} {p q : ℚ} (first : value? x = some p) (second : value? y = some q)
    (representable : Representable (p + q)) : value? (x + y) = some (p + q) := by
  rw [value?_eq] at first second ⊢
  obtain ⟨proper, worth⟩ := add_exactly (unpack_proper x) (unpack_proper y) first second representable
  exact (congrArg worth? (unpack_pack proper)).trans worth

theorem value?_sub {x y : Float} {p q : ℚ} (first : value? x = some p) (second : value? y = some q)
    (representable : Representable (p - q)) : value? (x - y) = some (p - q) := by
  rw [value?_eq] at first second ⊢
  obtain ⟨proper, worth⟩ := sub_exactly (unpack_proper x) (unpack_proper y) first second representable
  exact (congrArg worth? (unpack_pack proper)).trans worth

theorem lex_compare {m n : Nat} {e f : Int} (regular : Regular m e) (regular' : Regular n f) :
    (compare e f).then (compare m n) = compare (m * 2 ^ e : ℚ) (n * 2 ^ f) := by
  have less {m n : Nat} {e f : Int} (regular : Regular m e) (regular' : Regular n f) (lower : e < f) :
      (m * 2 ^ e : ℚ) < n * 2 ^ f := by
    have full : twoTo 52 ≤ n := regular'.full.resolve_right fun least => by
      have := regular.least
      omega
    have full' : (2 : ℚ) ^ 52 ≤ n := by
      rw [← cast_twoTo]
      exact Nat.cast_le.2 full
    have small : (m : ℚ) < 2 ^ 53 := by
      rw [← cast_twoTo]
      exact Nat.cast_lt.2 regular.small
    have unit : (0 : ℚ) < 2 ^ e := by positivity
    calc (m * 2 ^ e : ℚ) < 2 ^ 53 * 2 ^ e := mul_lt_mul_of_pos_right small unit
      _ = 2 ^ 52 * 2 ^ (e + 1) := by rw [zpow_add₀ (by norm_num), zpow_one]; ring
      _ ≤ n * 2 ^ f := mul_le_mul full' (zpow_le_zpow_right₀ (by norm_num) (by omega)) (by positivity) (by positivity)
  rcases lt_trichotomy e f with lower | rfl | higher
  · rw [compare_lt_iff_lt.2 lower, compare_lt_iff_lt.2 (less regular regular' lower)]
    rfl
  · have unit : (0 : ℚ) < 2 ^ e := by positivity
    rw [compare_eq_iff_eq.2 rfl, Ordering.eq_then]
    rcases lt_trichotomy m n with lower | rfl | higher
    · rw [compare_lt_iff_lt.2 lower, compare_lt_iff_lt.2 (mul_lt_mul_of_pos_right (Nat.cast_lt.2 lower) unit)]
    · rw [compare_eq_iff_eq.2 rfl, compare_eq_iff_eq.2 rfl]
    · rw [compare_gt_iff_gt.2 higher, compare_gt_iff_gt.2 (mul_lt_mul_of_pos_right (Nat.cast_lt.2 higher) unit)]
  · rw [compare_gt_iff_gt.2 higher, compare_gt_iff_gt.2 (less regular' regular higher)]
    rfl

theorem compare_opposite (p q : ℚ) : compare (-p) (-q) = (compare p q).swap := by
  rcases lt_trichotomy p q with lower | rfl | higher
  · rw [compare_lt_iff_lt.2 lower, compare_gt_iff_gt.2 (neg_lt_neg lower)]
    rfl
  · rw [compare_eq_iff_eq.2 rfl, compare_eq_iff_eq.2 rfl]
    rfl
  · rw [compare_gt_iff_gt.2 higher, compare_lt_iff_lt.2 (neg_lt_neg higher)]
    rfl

theorem compare_worth {a b : UnpackedFloat} {p q : ℚ} (proper : Proper a) (proper' : Proper b) (worth : worth? a = some p)
    (worth' : worth? b = some q) : UnpackedFloat.compare a b = some (compare p q) := by
  have size {m : Nat} (positive : 0 < m) (e : Int) : (0 : ℚ) < m * 2 ^ e := by positivity
  cases a with
  | notANumber => cases worth
  | infinity sign => cases worth
  | zero sign =>
    cases worth
    cases b with
    | notANumber => cases worth'
    | infinity sign' => cases worth'
    | zero sign' =>
      cases worth'
      rfl
    | finite sign' n f positive' =>
      cases worth'
      have some := size positive' f
      cases sign' with
      | positive => 
        have above : (0 : ℚ) < (Sign.positive.apply n : Int) * 2 ^ f := some
        rw [compare_lt_iff_lt.2 above]
        rfl
      | negative =>
        have below : ((Sign.negative.apply n : Int) * 2 ^ f : ℚ) < 0 := by simpa [Sign.apply] using some
        rw [compare_gt_iff_gt.2 below]
        rfl
  | finite sign m e positive =>
    cases worth
    have some := size positive e
    cases b with
    | notANumber => cases worth'
    | infinity sign' => cases worth'
    | zero sign' =>
      cases worth'
      cases sign with
      | positive => 
        have above : (0 : ℚ) < (Sign.positive.apply m : Int) * 2 ^ e := some
        rw [compare_gt_iff_gt.2 above]
        rfl
      | negative =>
        have below : ((Sign.negative.apply m : Int) * 2 ^ e : ℚ) < 0 := by simpa [Sign.apply] using some
        rw [compare_lt_iff_lt.2 below]
        rfl
    | finite sign' n f positive' =>
      cases worth'
      have some' := size positive' f
      have lex := lex_compare proper proper'
      have plain (k : Nat) : (Sign.positive.apply k : Int) = (k : ℚ) := rfl
      have opposite (k : Nat) : (Sign.negative.apply k : Int) = (-k : ℚ) := by simp [Sign.apply]
      cases sign with
      | positive =>
        cases sign' with
        | positive => exact congrArg Option.some lex
        | negative =>
          rw [plain, opposite, compare_gt_iff_gt.2 (by linarith)]
          rfl
      | negative =>
        cases sign' with
        | positive =>
          rw [plain, opposite, compare_lt_iff_lt.2 (by linarith)]
          rfl
        | negative =>
          rw [opposite, opposite, neg_mul, neg_mul, compare_opposite]
          exact congrArg (fun o : Ordering => Option.some o.swap) lex

theorem le_iff_value {x y : Float} {p q : ℚ} (first : value? x = some p) (second : value? y = some q) : x ≤ y ↔ p ≤ q := by
  rw [value?_eq] at first second
  have order := compare_worth (unpack_proper x) (unpack_proper y) first second
  change decide (x.toModel ≤ y.toModel) = true ↔ p ≤ q
  rw [decide_eq_true_iff]
  change UnpackedFloat.le x.toModel.unpack y.toModel.unpack = true ↔ p ≤ q
  rw [UnpackedFloat.le, order, Option.any_some, Ordering.isLE_iff_ne_gt]
  exact compare_le_iff_le

theorem lt_iff_value {x y : Float} {p q : ℚ} (first : value? x = some p) (second : value? y = some q) : x < y ↔ p < q := by
  rw [value?_eq] at first second
  have order := compare_worth (unpack_proper x) (unpack_proper y) first second
  change decide (x.toModel < y.toModel) = true ↔ p < q
  rw [decide_eq_true_iff]
  change UnpackedFloat.lt x.toModel.unpack y.toModel.unpack = true ↔ p < q
  rw [UnpackedFloat.lt, order, beq_iff_eq, Option.some_inj, compare_lt_iff_lt]

theorem beq_iff_value {x y : Float} {p q : ℚ} (first : value? x = some p) (second : value? y = some q) : x == y ↔ p = q := by
  rw [value?_eq] at first second
  have order := compare_worth (unpack_proper x) (unpack_proper y) first second
  change UnpackedFloat.beq x.toModel.unpack y.toModel.unpack = true ↔ p = q
  rw [UnpackedFloat.beq, order, beq_iff_eq, Option.some_inj, compare_eq_iff_eq]

theorem representable_whole {n : Int} (least : -2 ^ 53 ≤ n) (most : n ≤ 2 ^ 53) : Representable n := by
  obtain ⟨k, size⟩ : ∃ k : Nat, |(n : ℚ)| = k := ⟨n.natAbs, by rw [Nat.cast_natAbs, Int.cast_abs]⟩
  have bound : k ≤ 2 ^ 53 := by
    have bounds : |(n : ℚ)| ≤ 2 ^ 53 := abs_le.2 ⟨by exact_mod_cast least, by exact_mod_cast most⟩
    rw [size] at bounds
    exact_mod_cast bounds
  rw [Representable, size]
  rcases Nat.eq_zero_or_pos k with rfl | positive
  · exact ⟨0, -1074, ⟨by decide, by decide, by decide, Or.inr rfl⟩, by simp⟩
  rcases Nat.eq_or_lt_of_le bound with rfl | small
  · exact ⟨2 ^ 52, 1, ⟨by decide, by decide, by decide, Or.inl (le_refl _)⟩, by norm_num⟩
  obtain ⟨low, high⟩ := (Nat.log2_eq_iff positive.ne').1 (rfl : k.log2 = k.log2)
  have digits : k.log2 < 53 := (Nat.log2_lt positive.ne').2 small
  obtain ⟨room, fits⟩ := Int.le.dest (show (k.log2 : Int) ≤ 52 by omega)
  have room_eq : k.log2 + room = 52 := by omega
  refine ⟨k * 2 ^ room, -room, ⟨?_, by omega, by omega, Or.inl ?_⟩, ?_⟩
  · calc k * 2 ^ room < 2 ^ (k.log2 + 1) * 2 ^ room := Nat.mul_lt_mul_of_pos_right high (by positivity)
      _ = 2 ^ 53 := by rw [← pow_add, Nat.add_right_comm, room_eq]
  · calc 2 ^ 52 = 2 ^ k.log2 * 2 ^ room := by rw [← pow_add, room_eq]
      _ ≤ k * 2 ^ room := Nat.mul_le_mul_right _ low
  · rw [Nat.cast_mul, Nat.cast_pow, mul_assoc, Nat.cast_ofNat, zpow_neg, zpow_natCast, mul_inv_cancel₀ (by positivity), mul_one]

theorem exact_quotient {m d k : Nat} (positive : 0 < d) : (m / d : ℚ) = k ↔ m % d = 0 ∧ m / d = k := by
  have unit : (d : ℚ) ≠ 0 := Nat.cast_ne_zero.2 positive.ne'
  rw [div_eq_iff unit]
  constructor
  · intro product
    have product : m = k * d := by exact_mod_cast product
    rw [product]
    exact ⟨Nat.mul_mod_left k d, Nat.mul_div_left k positive⟩
  · rintro ⟨whole, rfl⟩
    exact_mod_cast (Nat.div_mul_cancel (Nat.dvd_of_mod_eq_zero whole)).symm

theorem signed_quotient (negative : Bool) {m d : Nat} (positive : 0 < d) {n : Int} :
    (if m % d == 0 then some (if negative then -((m / d : Nat) : Int) else (m / d : Nat)) else none) = some n ↔
      (if negative then -1 else 1 : ℚ) * (m / d) = n := by
  constructor
  · intro given
    split at given
    next whole =>
      have exact := (exact_quotient positive).2 ⟨beq_iff_eq.1 whole, rfl⟩
      rw [exact, ← Option.some_inj.1 given]
      cases negative with
      | false => exact one_mul _
      | true => exact (neg_one_mul _).trans (Int.cast_neg _).symm
    next => cases given
  · intro given
    have size : (m / d : ℚ) = n.natAbs := by
      rw [Nat.cast_natAbs, Int.cast_abs, ← given, abs_mul, abs_of_nonneg (by positivity : (0 : ℚ) ≤ m / d)]
      cases negative with
      | false => simp
      | true => simp
    obtain ⟨whole, quotient⟩ := (exact_quotient positive).1 size
    rw [if_pos (beq_iff_eq.2 whole), quotient, Option.some_inj]
    rw [size] at given
    cases negative with
    | false => exact Int.cast_injective ((one_mul _).symm.trans given)
    | true => exact Int.cast_injective ((Int.cast_neg _).trans ((neg_one_mul _).symm.trans given))

theorem toInt?_eq_some_iff {x : Float} {n : Int} : toInt? x = some n ↔ value? x = some (n : ℚ) := by
  cases parts : parts? x with
  | none => simp [toInt?, value?, parts]
  | some p =>
    have worth : p.value = (if p.negative then -1 else 1) *
        ((p.magnitude * twoTo p.exponent.toNat : Nat) / twoTo (-p.exponent).toNat) := by
      rw [Parts.value, zpow_split, ← mul_div_assoc, Nat.cast_mul, cast_twoTo, cast_twoTo]
    have value : value? x = some p.value := by rw [value?, parts, Option.map_some]
    rw [value, worth, Option.some_inj, ← signed_quotient p.negative (twoTo_pos _), toInt?, parts]
    rfl

theorem parts?_signed_packed {m : Nat} {e : Int} (regular : Regular m e) :
    parts? (signed false (packed m e)) = some ⟨false, m, e⟩ := by
  have finite : packed m e < 2047 * twoTo 52 := by
    obtain ⟨small, least, most, full⟩ := regular
    change m < 2 ^ 53 at small
    change 2 ^ 52 ≤ m ∨ _ at full
    change (if m < 2 ^ 52 then m else min ((e + 1075).toNat * 2 ^ 52 + (m - 2 ^ 52)) (2047 * 2 ^ 52)) < 2047 * 2 ^ 52
    split <;> omega
  obtain ⟨m', e', parts, regular', same⟩ := parts?_signed finite
  rw [parts]
  obtain ⟨small, least, most, full⟩ := regular
  obtain ⟨small', least', most', full'⟩ := regular'
  change m < 2 ^ 53 at small
  change 2 ^ 52 ≤ m ∨ _ at full
  change m' < 2 ^ 53 at small'
  change 2 ^ 52 ≤ m' ∨ _ at full'
  change (if m' < 2 ^ 52 then m' else min ((e' + 1075).toNat * 2 ^ 52 + (m' - 2 ^ 52)) (2047 * 2 ^ 52)) =
    (if m < 2 ^ 52 then m else min ((e + 1075).toNat * 2 ^ 52 + (m - 2 ^ 52)) (2047 * 2 ^ 52)) at same
  have sameMagnitude : m' = m ∧ e' = e := by
    split at same <;> split at same <;> omega
  rw [sameMagnitude.1, sameMagnitude.2]

theorem value?_ofInt {k : Nat} (most : k ≤ 2 ^ 53) : value? (ofInt k) = some (k : ℚ) := by
  rcases Nat.eq_zero_or_pos k with rfl | positive
  · decide +kernel
  obtain ⟨m, e, regular, worth⟩ := representable_whole (n := k) (by omega) (by exact_mod_cast most)
  have worth : (k : ℚ) = m * 2 ^ e := by simpa using worth
  have some : 0 < m := by
    refine Nat.pos_of_ne_zero fun zero => ?_
    rw [zero, Nat.cast_zero, zero_mul, Nat.cast_eq_zero] at worth
    exact positive.ne' worth
  have ratio : ofInt k = ofRatio false (k * twoTo 0) (twoTo 0) := by
    have notNegative : decide ((k : Int) < 0) = false := decide_eq_false (by omega)
    have inRange : ¬(bitLength k : Int) + 0 < -1100 := by omega
    rw [ofInt, notNegative, Int.natAbs_natCast, ofScaled, if_neg positive.ne', if_neg (by decide), if_neg inRange]
    rfl
  have near : Nearest ((k * twoTo 0 : Nat) / (twoTo 0 : Nat)) m e := by
    have whole : ((k * twoTo 0 : Nat) / (twoTo 0 : Nat) : ℚ) = m * 2 ^ e := by simp [twoTo, worth]
    rw [whole]
    exact Decimal.exact_nearest
  rw [ratio, ofRatio_nearest false (twoTo_pos 0) some regular near, value?, parts?_signed_packed regular, worth]
  simp [Parts.value]

theorem ceil_of_whole {x : Float} {n : Int} (whole : value? x = some (n : ℚ)) : ceil x = x := by
  have integer := toInt?_eq_some_iff.2 whole
  rw [toInt?] at integer
  rw [ceil]
  cases parts : parts? x with
  | none => rfl
  | some p =>
    have isWhole : p.isWhole = true := by
      by_contra fraction
      simp [parts, fraction] at integer
    exact if_pos isWhole

end ScriptKernel.Binary64
