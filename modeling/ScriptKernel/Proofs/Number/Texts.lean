import Mathlib
import ScriptKernel.Number.Decimal

/-!
Texts of digits. A text of digits, or of digits around a point, is read as the
decimal it spells, and a decimal written out around its point is such a text.
-/

namespace ScriptKernel.Decimal

inductive NumberText : List Char → Prop
  | whole {digits : List Char} (some : digits ≠ []) (all : ∀ c ∈ digits, c.isDigit) :
      NumberText digits
  | fraction {before behind : List Char} (some : before ≠ []) (all : ∀ c ∈ before, c.isDigit)
      (more : behind ≠ []) (allMore : ∀ c ∈ behind, c.isDigit) :
      NumberText (before ++ '.' :: behind)

theorem NumberText.starts {text : List Char} (plain : NumberText text) :
    ∃ c rest, text = c :: rest ∧ c.isDigit := by
  cases plain with
  | whole some all =>
    obtain ⟨c, rest, rfl⟩ := List.exists_cons_of_ne_nil some
    exact ⟨c, rest, rfl, all c List.mem_cons_self⟩
  | fraction some all more allMore =>
    obtain ⟨c, rest, rfl⟩ := List.exists_cons_of_ne_nil some
    exact ⟨c, rest ++ '.' :: _, rfl, all c List.mem_cons_self⟩

theorem NumberText.all {text : List Char} (plain : NumberText text) : ∀ c ∈ text, c.isDigit ∨ c = '.' := by
  intro c member
  cases plain with
  | whole some all => exact Or.inl (all c member)
  | fraction some all more allMore =>
    rw [List.mem_append, List.mem_cons] at member
    rcases member with inBefore | point | inBehind
    · exact Or.inl (all c inBefore)
    · exact Or.inr point
    · exact Or.inl (allMore c inBehind)

theorem toLower_of_isDigit {c : Char} (digit : c.isDigit) : c.toLower = c := by
  have small := (Char.isDigit_iff_toNat.1 digit).2
  have noCapital : ¬(c.val ≥ 'A'.val ∧ c.val ≤ 'Z'.val) := by
    intro capital
    have large : 65 ≤ c.toNat := UInt32.le_iff_toNat_le.1 capital.1
    exact absurd (Nat.le_trans large small) (by decide)
  exact dif_neg noCapital

theorem lowered_ne {c : Char} (rest : List Char) (digit : c.isDigit) {word : String}
    (letter : word.toList.head?.all fun c => !c.isDigit) :
    String.ofList ((c :: rest).map Char.toLower) ≠ word := by
  intro same
  have chars : c.toLower :: rest.map Char.toLower = word.toList := by
    rw [← same, String.toList_ofList, List.map_cons]
  rw [← chars, List.head?_cons, toLower_of_isDigit digit, Option.all_some, digit] at letter
  contradiction

theorem isGrouped_of_not_mem {isDigit : Char → Bool} {behind : Bool} {text : List Char} (absent : '_' ∉ text) :
    isGrouped isDigit behind text = true := by
  fun_induction isGrouped isDigit behind text with
  | case1 => rfl
  | case2 => exact absurd List.mem_cons_self absent
  | case3 _ c rest _ ih => exact ih fun member => absent (List.mem_cons_of_mem c member)

theorem ungrouped?_of_not_mem {isDigit : Char → Bool} {behind : Bool} {text : List Char} (absent : '_' ∉ text) :
    ungrouped? isDigit behind text = some text := by
  have kept : text.filter (· ≠ '_') = text := by
    refine List.filter_eq_self.2 fun c member => decide_eq_true ?_
    rintro rfl
    exact absent member
  rw [ungrouped?, if_pos (isGrouped_of_not_mem absent), kept]

theorem read?_number {text : List Char} (plain : NumberText text) :
    read? (String.ofList text) =
      (decimal? false text).bind fun x => if Binary64.isInfinite x then none else some x := by
  have absent {c : Char} (other : c.isDigit = false) (notPoint : c ≠ '.') : c ∉ text := by
    intro member
    rcases plain.all c member with digit | point
    · rw [other] at digit
      contradiction
    · exact notPoint point
  have unsigned : Integer.signed text = (false, text) := by
    rw [Integer.signed.eq_def]
    split
    · exact absurd List.mem_cons_self (absent (c := '-') rfl (by decide))
    · exact absurd List.mem_cons_self (absent (c := '+') rfl (by decide))
    · rfl
  have magnitude : magnitude? false text = decimal? false text := by
    rw [magnitude?.eq_def]
    split
    · exact absurd (List.mem_cons_of_mem _ List.mem_cons_self) (absent (c := 'x') rfl (by decide))
    · exact absurd (List.mem_cons_of_mem _ List.mem_cons_self) (absent (c := 'X') rfl (by decide))
    · rw [ungrouped?_of_not_mem (absent rfl (by decide))]
      rfl
  obtain ⟨c, rest, shape, digit⟩ := plain.starts
  have notInf : String.ofList (text.map Char.toLower) ≠ "inf" := shape ▸ lowered_ne rest digit rfl
  have notInfinity : String.ofList (text.map Char.toLower) ≠ "infinity" := shape ▸ lowered_ne rest digit rfl
  have notNan : (String.ofList text).toLower ≠ "nan" := by
    have lower : (String.ofList text).toLower = String.ofList (text.map Char.toLower) := by
      apply String.toList_inj.1
      rw [String.toLower, String.toList_map, String.toList_ofList, String.toList_ofList]
    rw [lower]
    exact shape ▸ lowered_ne rest digit rfl
  rw [read?, String.toList_ofList, unsigned]
  simp only [notInf, notInfinity, or_self, if_false, notNan, magnitude]
  rfl

theorem significand?_whole {digits : List Char} (some : digits ≠ []) (all : ∀ c ∈ digits, c.isDigit) :
    significand? Char.isDigit digits = Option.some (digits, 0, []) := by
  have taken : digits.takeWhile Char.isDigit = digits := List.takeWhile_eq_self_iff.2 all
  have left : digits.dropWhile Char.isDigit = [] := List.dropWhile_eq_nil_iff.2 all
  rw [significand?, taken, left]
  simp [some]

theorem significand?_fraction {before behind : List Char} (some : before ≠ []) (all : ∀ c ∈ before, c.isDigit)
    (allMore : ∀ c ∈ behind, c.isDigit) :
    significand? Char.isDigit (before ++ '.' :: behind) = Option.some (before ++ behind, behind.length, []) := by
  have point : ('.' : Char).isDigit = false := rfl
  have taken : (before ++ '.' :: behind).takeWhile Char.isDigit = before := by
    rw [List.takeWhile_append_of_pos all, List.takeWhile_cons, point]
    exact List.append_nil before
  have left : (before ++ '.' :: behind).dropWhile Char.isDigit = '.' :: behind := by
    rw [List.dropWhile_append_of_pos all, List.dropWhile_cons, point]
    rfl
  have takenMore : behind.takeWhile Char.isDigit = behind := List.takeWhile_eq_self_iff.2 allMore
  have leftMore : behind.dropWhile Char.isDigit = [] := List.dropWhile_eq_nil_iff.2 allMore
  rw [significand?, taken, left]
  simp [takenMore, leftMore, some]

theorem decimal?_whole {digits : List Char} (negative : Bool) (some : digits ≠ []) (all : ∀ c ∈ digits, c.isDigit) :
    decimal? negative digits = Option.some (Scaled.toFloat negative ⟨digitsValue digits, 0⟩) := by
  rw [decimal?, significand?_whole some all]
  rfl

theorem decimal?_fraction {before behind : List Char} (negative : Bool) (some : before ≠ [])
    (all : ∀ c ∈ before, c.isDigit) (allMore : ∀ c ∈ behind, c.isDigit) :
    decimal? negative (before ++ '.' :: behind) =
      Option.some (Scaled.toFloat negative ⟨digitsValue (before ++ behind), -(behind.length : Int)⟩) := by
  have shift : (0 : Int) - behind.length = -(behind.length : Int) := Int.zero_sub _
  rw [decimal?, significand?_fraction some all allMore, ← shift]
  rfl

theorem NumberText.decimal {text : List Char} (plain : NumberText text) :
    ∃ d : Scaled, decimal? false text = some (d.toFloat false) := by
  cases plain with
  | whole some all => exact ⟨_, decimal?_whole false some all⟩
  | fraction some all more allMore => exact ⟨_, decimal?_fraction false some all allMore⟩

theorem digitsValue_eq (digits : List Char) : digitsValue digits = Nat.ofDigitChars 10 digits 0 := by
  rw [Nat.ofDigitChars_eq_foldl, digitsValue]
  congr 1
  funext value c
  rw [Nat.mul_comm]
  rfl

theorem isDigit_toDigits (n : Nat) : ∀ c ∈ Nat.toDigits 10 n, c.isDigit :=
  fun _ => Nat.isDigit_of_mem_toDigits (by decide) (by decide)

theorem isDigit_replicate (n : Nat) : ∀ c ∈ List.replicate n '0', c.isDigit := by
  intro c member
  obtain rfl := List.eq_of_mem_replicate member
  rfl

theorem isDigit_append {left right : List Char} (first : ∀ c ∈ left, c.isDigit) (second : ∀ c ∈ right, c.isDigit) :
    ∀ c ∈ left ++ right, c.isDigit := by
  intro c member
  exact (List.mem_append.1 member).elim (first c) (second c)

theorem positional_whole {d : Scaled} (whole : 0 ≤ d.exponent) :
    NumberText d.positional ∧
      decimal? false d.positional = some (Scaled.toFloat false ⟨d.digits * tenTo d.exponent.toNat, 0⟩) := by
  by_cases zero : d.digits = 0
  · have text : d.positional = ['0'] := by
      rw [Scaled.positional, if_pos whole, if_pos zero]
    rw [text, zero, Nat.zero_mul]
    exact ⟨.whole (by decide) (isDigit_replicate 1), rfl⟩
  · have text : d.positional = Nat.toDigits 10 d.digits ++ List.replicate d.exponent.toNat '0' := by
      rw [Scaled.positional, if_pos whole, if_neg zero]
    have some : d.positional ≠ [] := by
      rw [text]
      exact List.append_ne_nil_of_left_ne_nil Nat.toDigits_ne_nil _
    have all : ∀ c ∈ d.positional, c.isDigit := by
      rw [text]
      exact isDigit_append (isDigit_toDigits _) (isDigit_replicate _)
    have value : digitsValue d.positional = d.digits * tenTo d.exponent.toNat := by
      rw [text, digitsValue_eq, Nat.ofDigitChars_append, Nat.ofDigitChars_ten_toDigits,
        Nat.ofDigitChars_replicate_zero, Nat.mul_comm]
      rfl
    exact ⟨.whole some all, by rw [decimal?_whole false some all, value]⟩

theorem positional_fraction {d : Scaled} (places : d.exponent < 0) :
    NumberText d.positional ∧ decimal? false d.positional = some (d.toFloat false) := by
  have split : ¬0 ≤ d.exponent := by omega
  simp only [Scaled.positional, if_neg split]
  generalize shape : List.replicate ((-d.exponent).toNat + 1 - (Nat.toDigits 10 d.digits).length) '0' ++
    Nat.toDigits 10 d.digits = filled
  have long : (-d.exponent).toNat + 1 ≤ filled.length := by
    rw [← shape, List.length_append, List.length_replicate]
    omega
  have all : ∀ c ∈ filled, c.isDigit := by
    rw [← shape]
    exact isDigit_append (isDigit_replicate _) (isDigit_toDigits _)
  have value : digitsValue filled = d.digits := by
    rw [← shape, digitsValue_eq, Nat.ofDigitChars_append, Nat.ofDigitChars_replicate_zero, Nat.mul_zero,
      Nat.ofDigitChars_ten_toDigits]
  generalize count : filled.length - (-d.exponent).toNat = before
  have some : filled.take before ≠ [] := by
    refine List.ne_nil_of_length_pos ?_
    rw [List.length_take]
    omega
  have behind : (filled.drop before).length = (-d.exponent).toNat := by
    rw [List.length_drop]
    omega
  have more : filled.drop before ≠ [] := List.ne_nil_of_length_pos (by omega)
  have allBefore : ∀ c ∈ filled.take before, c.isDigit := fun c member => all c (List.mem_of_mem_take member)
  have allBehind : ∀ c ∈ filled.drop before, c.isDigit := fun c member => all c (List.mem_of_mem_drop member)
  have exponent : -((-d.exponent).toNat : Int) = d.exponent := by omega
  refine ⟨.fraction some allBefore more allBehind, ?_⟩
  rw [decimal?_fraction false some allBefore allBehind, List.take_append_drop, value, behind, exponent]

end ScriptKernel.Decimal
