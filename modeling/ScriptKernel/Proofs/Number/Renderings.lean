import ScriptKernel.Proofs.Number.Shortest
import ScriptKernel.Proofs.Number.Values

/-!
Numbers told by their texts. The digits written for a magnitude are read back as
that magnitude, a sign stands in front of them, and the numbers without digits
have words of their own. So no two numbers have the same text, but for the two
zeros, which are written alike.
-/

namespace ScriptKernel

namespace Binary64

open Float.Model (Format)
open Float.Model.UnpackedFloat

theorem bits_of_parts {x : Float} {p : Parts} (parts : parts? x = some p) :
    x.toBits.toNat = (if p.negative then 2 ^ 63 else 0) +
      if p.magnitude < 2 ^ 52 then p.magnitude else (p.exponent + 1075).toNat * 2 ^ 52 + (p.magnitude - 2 ^ 52) := by
  have size := x.toBits.toNat_lt
  generalize bits : x.toBits.toNat = n at size
  change (if x.toBits.toNat / 2 ^ 52 % 2 ^ 11 = 2047 then none
    else if x.toBits.toNat / 2 ^ 52 % 2 ^ 11 = 0 then
      some ⟨x.toBits.toNat / 2 ^ 63 == 1, x.toBits.toNat % 2 ^ 52, -1074⟩
    else some ⟨x.toBits.toNat / 2 ^ 63 == 1, 2 ^ 52 + x.toBits.toNat % 2 ^ 52,
      (x.toBits.toNat / 2 ^ 52 % 2 ^ 11 : Nat) - 1075⟩) = some p at parts
  rw [bits] at parts
  split at parts
  · cases parts
  split at parts
  · cases parts
    have small : n % 2 ^ 52 < 2 ^ 52 := by omega
    simp only [if_pos small, beq_iff_eq]
    split <;> omega
  · cases parts
    have large : ¬2 ^ 52 + n % 2 ^ 52 < 2 ^ 52 := by omega
    simp only [if_neg large, beq_iff_eq]
    split <;> omega

theorem eq_of_parts {x y : Float} {p : Parts} (left : parts? x = some p) (right : parts? y = some p) : x = y := by
  rw [← Float.toBits_inj, ← UInt64.toNat_inj, bits_of_parts left, bits_of_parts right]

theorem exponent_field_of_no_parts {x : Float} (parts : parts? x = none) :
    x.toBits.toNat / 2 ^ 52 % 2 ^ 11 = 2047 := by
  change (if x.toBits.toNat / 2 ^ 52 % 2 ^ 11 = 2047 then none
    else if x.toBits.toNat / 2 ^ 52 % 2 ^ 11 = 0 then some _ else some _) = none at parts
  by_contra finite
  rw [if_neg finite] at parts
  split at parts <;> cases parts

theorem bits_of_undefined {x : Float} (parts : parts? x = none) (finite : isInfinite x = false) :
    x.toBits.toBitVec = packedNaN Format.binary64 := by
  have field := exponent_field_of_no_parts parts
  apply x.toModel.valid.eq_packedNaN
  · exact (unpackExponent_eq_iff x.toBits.toBitVec _).2 field
  · intro empty
    have fraction : x.toBits.toNat % 2 ^ 52 = 0 := (unpackMantissa_eq_zero_iff x.toBits.toBitVec).1 empty
    have other : ¬x.toBits.toNat % 2 ^ 63 = 2047 * 2 ^ 52 := beq_eq_false_iff_ne.1 finite
    omega

theorem eq_of_no_parts {x y : Float} (left : parts? x = none) (right : parts? y = none)
    (infinite : isInfinite x = isInfinite y) (sign : isInfinite x → isNegative x = isNegative y) : x = y := by
  rw [← Float.toBits_inj]
  cases known : isInfinite x with
  | true =>
    have size := x.toBits.toNat_lt
    have size' := y.toBits.toNat_lt
    have signs : (x.toBits.toNat / 2 ^ 63 = 1) ↔ (y.toBits.toNat / 2 ^ 63 = 1) := by
      have same := sign known
      rw [isNegative, isNegative, Bool.eq_iff_iff, beq_iff_eq, beq_iff_eq] at same
      exact same
    have low : x.toBits.toNat % 2 ^ 63 = 2047 * 2 ^ 52 := beq_iff_eq.1 known
    have low' : y.toBits.toNat % 2 ^ 63 = 2047 * 2 ^ 52 := beq_iff_eq.1 (infinite.symm.trans known)
    rw [← UInt64.toNat_inj]
    omega
  | false =>
    rw [known] at infinite
    rw [← UInt64.toBitVec_inj, bits_of_undefined left known, bits_of_undefined right infinite.symm]

end Binary64

namespace Decimal

open Binary64 (Parts Regular parts?)

theorem positional_shortest_inj {p q : Parts} (regular : Regular p.magnitude p.exponent)
    (regular' : Regular q.magnitude q.exponent) (same : (shortest p).positional = (shortest q).positional) :
    p.magnitude = q.magnitude ∧ p.exponent = q.exponent := by
  have left := (decimal?_shortest regular).2
  have right := (decimal?_shortest regular').2
  rw [same, right, Option.some_inj] at left
  have parts := Binary64.parts?_signed_packed regular
  rw [← left, Binary64.parts?_signed_packed regular', Option.some_inj, Parts.mk.injEq] at parts
  exact ⟨parts.2.1.symm, parts.2.2.symm⟩

theorem render_of_parts {x : Float} {p : Parts} (parts : parts? x = some p) :
    (render x).toList =
      if p.negative && p.magnitude != 0 then '-' :: (shortest p).positional else (shortest p).positional := by
  rw [render, parts]
  exact String.toList_ofList

theorem render_of_no_parts {x : Float} (parts : parts? x = none) :
    render x = if Binary64.isInfinite x then if Binary64.isNegative x then "-Inf" else "+Inf" else "NaN" := by
  rw [render, parts]

theorem parts?_negative_zero : parts? (-0.0) = some ⟨true, 0, -1074⟩ := by
  decide +kernel

theorem eq_negative_zero {x : Float} {p : Parts} (parts : parts? x = some p) (zero : p.magnitude = 0)
    (negative : p.negative) : x = -0.0 := by
  obtain ⟨regular, -⟩ := Binary64.unpack_of_parts parts
  have least : p.exponent = -1074 := by
    rcases regular.full with full | least
    · rw [zero] at full
      exact absurd full (by decide)
    · exact least
  have shape : p = ⟨true, 0, -1074⟩ := by
    cases p
    simp_all
  rw [shape] at parts
  exact Binary64.eq_of_parts parts parts?_negative_zero

theorem mem_words_of_no_parts {x : Float} (parts : parts? x = none) :
    (render x).toList ∈ [['-', 'I', 'n', 'f'], ['+', 'I', 'n', 'f'], ['N', 'a', 'N']] := by
  rw [render_of_no_parts parts]
  split
  · split <;> simp
  · simp

def signs : List Char :=
  ['+', '-', '.', 'I', 'n', 'f', 'N', 'a']

theorem mem_render {x : Float} : ∀ c ∈ (render x).toList, c.isDigit ∨ c ∈ signs := by
  intro c member
  cases parts : parts? x with
  | none =>
    have words : ∀ word ∈ [['-', 'I', 'n', 'f'], ['+', 'I', 'n', 'f'], ['N', 'a', 'N']], ∀ c ∈ word, c ∈ signs := by
      simp [signs]
    exact Or.inr (words _ (mem_words_of_no_parts parts) c member)
  | some p =>
    have digits := (decimal?_shortest (Binary64.unpack_of_parts parts).1).1.all
    have written (member : c ∈ (shortest p).positional) : c.isDigit ∨ c ∈ signs := by
      rcases digits c member with digit | rfl
      · exact Or.inl digit
      · exact Or.inr (by decide)
    rw [render_of_parts parts] at member
    split at member
    · rcases List.mem_cons.1 member with rfl | later
      · exact Or.inr (by decide)
      · exact written later
    · exact written member

theorem exists_digit {x : Float} {p : Parts} (parts : parts? x = some p) : ∃ c ∈ (render x).toList, c.isDigit := by
  obtain ⟨c, rest, text, digit⟩ := (decimal?_shortest (Binary64.unpack_of_parts parts).1).1.starts
  refine ⟨c, ?_, digit⟩
  rw [render_of_parts parts, text]
  split
  · exact List.mem_cons_of_mem _ List.mem_cons_self
  · exact List.mem_cons_self

theorem no_digit {x : Float} (parts : parts? x = none) : ∀ c ∈ (render x).toList, ¬c.isDigit := by
  have words : ∀ word ∈ [['-', 'I', 'n', 'f'], ['+', 'I', 'n', 'f'], ['N', 'a', 'N']], ∀ c ∈ word, ¬c.isDigit := by
    simp
  exact words _ (mem_words_of_no_parts parts)

theorem signed_of_ne {x : Float} {p : Parts} (parts : parts? x = some p) (usual : x ≠ -0.0) :
    (p.negative && p.magnitude != 0) = p.negative := by
  cases negative : p.negative with
  | false => rfl
  | true =>
    have nonzero : p.magnitude ≠ 0 := fun zero => usual (eq_negative_zero parts zero negative)
    simp [nonzero]

theorem minus_ne_positional {p : Parts} (regular : Regular p.magnitude p.exponent) (text : List Char) :
    '-' :: text ≠ (shortest p).positional := by
  intro clash
  obtain ⟨c, rest, starts, digit⟩ := (decimal?_shortest regular).1.starts
  rw [starts] at clash
  cases clash
  cases digit

theorem eq_of_render_parts {x y : Float} {p q : Parts} (usual : x ≠ -0.0) (usual' : y ≠ -0.0) (left : parts? x = some p)
    (right : parts? y = some q) (same : render x = render y) : x = y := by
  obtain ⟨regular, -⟩ := Binary64.unpack_of_parts left
  obtain ⟨regular', -⟩ := Binary64.unpack_of_parts right
  have texts := congrArg String.toList same
  rw [render_of_parts left, render_of_parts right, signed_of_ne left usual, signed_of_ne right usual'] at texts
  have equal : p.negative = q.negative ∧ (shortest p).positional = (shortest q).positional := by
    cases negative : p.negative with
    | false =>
      cases negative' : q.negative with
      | false => exact ⟨rfl, by simpa [negative, negative'] using texts⟩
      | true =>
        rw [negative, negative'] at texts
        exact absurd texts.symm (minus_ne_positional regular _)
    | true =>
      cases negative' : q.negative with
      | false =>
        rw [negative, negative'] at texts
        exact absurd texts (minus_ne_positional regular' _)
      | true => exact ⟨rfl, by simpa [negative, negative'] using texts⟩
  obtain ⟨magnitude, exponent⟩ := positional_shortest_inj regular regular' equal.2
  have shape : p = q := by
    cases p
    cases q
    simp_all
  rw [← shape] at right
  exact Binary64.eq_of_parts left right

theorem render_inj {x y : Float} (usual : x ≠ -0.0) (usual' : y ≠ -0.0) (same : render x = render y) : x = y := by
  cases left : parts? x with
  | some p =>
    cases right : parts? y with
    | some q => exact eq_of_render_parts usual usual' left right same
    | none =>
      obtain ⟨c, member, digit⟩ := exists_digit left
      rw [same] at member
      exact absurd digit (no_digit right c member)
  | none =>
    cases right : parts? y with
    | some q =>
      obtain ⟨c, member, digit⟩ := exists_digit right
      rw [← same] at member
      exact absurd digit (no_digit left c member)
    | none =>
      have words : ∀ a b c d : Bool, (if a then if b then "-Inf" else "+Inf" else "NaN") =
          (if c then if d then "-Inf" else "+Inf" else "NaN") → a = c ∧ (a → b = d) := by decide
      rw [render_of_no_parts left, render_of_no_parts right] at same
      obtain ⟨infinite, sign⟩ := words _ _ _ _ same
      exact Binary64.eq_of_no_parts left right infinite sign

end Decimal

end ScriptKernel
