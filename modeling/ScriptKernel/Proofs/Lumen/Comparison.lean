import ScriptKernel.Proofs.Lumen.Equality
import ScriptKernel.Proofs.Text.Utf8

/-!
The six comparisons together. Four of them go by an ordering made from two
comparisons and two by equality, and they agree: of two strings, and of two
numbers that are both defined, one is less, equal or greater, and the others
follow. The undefined number is outside of the order, it is neither less than,
equal to nor greater than anything.
-/

namespace ScriptKernel.Lumen

variable {heap : Heap} {a b c : Value} {x y : Float}

/-- All comparisons answer, exactly one of less, equal and greater holds, and
the other three are made up of these. -/
def Coherent (heap : Heap) (a b : Value) : Prop :=
  ∃ less equal greater : Bool, [less, equal, greater].count true = 1 ∧
    compare heap .lt a b = .ok (.bool less) ∧
    compare heap .eq a b = .ok (.bool equal) ∧
    compare heap .gt a b = .ok (.bool greater) ∧
    compare heap .le a b = .ok (.bool (less || equal)) ∧
    compare heap .ge a b = .ok (.bool (greater || equal)) ∧
    compare heap .ne a b = .ok (.bool (!equal))

theorem one_of_three {less equal greater : Bool} (some : less ∨ equal ∨ greater) (apart : less → ¬equal ∧ ¬greater)
    (apart' : equal → ¬greater) : [less, equal, greater].count true = 1 := by
  cases less <;> cases equal <;> cases greater <;> simp at some apart apart' ⊢

theorem coherent_of_order {less equal greater : Bool} (one : [less, equal, greater].count true = 1)
    (ordered : ∀ op, op ≠ .eq → op ≠ .ne → compare heap op a b = decideOrder op (order less greater))
    (equality : heap.looseEqual a b = .ok equal) : Coherent heap a b := by
  have same : compare heap .eq a b = .ok (.bool equal) := by
    rw [compare, equality]
    rfl
  have other : compare heap .ne a b = .ok (.bool (!equal)) := by
    rw [compare, equality]
    rfl
  refine ⟨less, equal, greater, one, ?_, same, ?_, ?_, ?_, other⟩
  all_goals
    rw [ordered _ (by decide) (by decide)]
    cases less <;> cases equal <;> cases greater <;> first | rfl | simp at one

theorem compare_numbers {op : CompareOp} (ordering : op ≠ .eq) (ordering' : op ≠ .ne) :
    compare heap op (.number x) (.number y) = decideOrder op (order (x < y) (y < x)) := by
  cases op <;> first | contradiction | rfl

theorem numbers_coherent (defined : ¬x.isNaN) (defined' : ¬y.isNaN) : Coherent heap (.number x) (.number y) := by
  rw [Binary64.isNaN_iff_place, ← ne_eq, Option.ne_none_iff_exists'] at defined defined'
  obtain ⟨p, left⟩ := defined
  obtain ⟨q, right⟩ := defined'
  have one : [decide (x < y), x == y, decide (y < x)].count true = 1 := by
    apply one_of_three
    · rw [decide_eq_true_iff, decide_eq_true_iff, Binary64.lt_iff_lt_place left right,
        Binary64.beq_iff_eq_place left right, Binary64.lt_iff_lt_place right left]
      exact lt_trichotomy p q
    · rw [decide_eq_true_iff, decide_eq_true_iff, Binary64.lt_iff_lt_place left right,
        Binary64.beq_iff_eq_place left right, Binary64.lt_iff_lt_place right left]
      exact fun less => ⟨less.ne, less.not_gt⟩
    · rw [decide_eq_true_iff, Binary64.beq_iff_eq_place left right, Binary64.lt_iff_lt_place right left]
      exact fun equal => equal.not_gt
  exact coherent_of_order one (fun op ordering ordering' => compare_numbers ordering ordering')
    (looseAt_leaf heap _ trivial trivial)

theorem compare_strings {s t : String} {op : CompareOp} (ordering : op ≠ .eq) (ordering' : op ≠ .ne) :
    compare heap op (.string s) (.string t) = decideOrder op (order (s < t) (t < s)) := by
  cases op <;> first | contradiction | rfl

theorem strings_coherent (s t : String) : Coherent heap (.string s) (.string t) := by
  have one : [decide (s < t), s == t, decide (t < s)].count true = 1 := by
    apply one_of_three
    · rw [decide_eq_true_iff, decide_eq_true_iff, beq_iff_eq]
      exact Std.lt_trichotomy s t
    · rw [decide_eq_true_iff, decide_eq_true_iff, beq_iff_eq]
      refine fun less => ⟨?_, Std.not_gt_of_lt less⟩
      rintro rfl
      exact Std.lt_irrefl less
    · rw [decide_eq_true_iff, beq_iff_eq]
      rintro rfl
      exact Std.lt_irrefl
  exact coherent_of_order one (fun op ordering ordering' => compare_strings ordering ordering')
    (looseAt_leaf heap _ trivial trivial)

theorem order_lt (less greater : Bool) : decideOrder .lt (order less greater) = .ok (.bool less) := by
  cases less <;> cases greater <;> rfl

theorem order_gt {less greater : Bool} (apart : greater → ¬less) :
    decideOrder .gt (order less greater) = .ok (.bool greater) := by
  cases less <;> cases greater <;> first | rfl | simp at apart

theorem compare_simple (simple : Simple a) (simple' : Simple b) :
    compare heap .eq a b = .ok (.bool (alike a b)) ∧ compare heap .ne a b = .ok (.bool (!alike a b)) := by
  have answer : heap.looseEqual a b = .ok (alike a b) := looseAt_leaf heap _ simple simple'
  constructor
  · rw [compare, answer]
    rfl
  · rw [compare, answer]
    rfl

theorem compare_as_numbers (heap : Heap) (x y : Float) :
    compare heap .lt (.number x) (.number y) = .ok (.bool (x < y)) ∧
      compare heap .gt (.number x) (.number y) = .ok (.bool (x > y)) ∧
      compare heap .eq (.number x) (.number y) = .ok (.bool (x == y)) ∧
      compare heap .ne (.number x) (.number y) = .ok (.bool (x != y)) := by
  have apart : decide (y < x) → ¬decide (x < y) := by simpa using Binary64.not_lt_of_lt
  refine ⟨?_, ?_, compare_simple trivial trivial⟩
  · rw [compare_numbers (by decide) (by decide), order_lt]
  · rw [compare_numbers (by decide) (by decide), order_gt apart]

theorem compare_as_bytes (heap : Heap) (s t : String) :
    let bytes := Text.Utf8.encode s
    let bytes' := Text.Utf8.encode t
    compare heap .lt (.string s) (.string t) = .ok (.bool (bytes < bytes')) ∧
      compare heap .gt (.string s) (.string t) = .ok (.bool (bytes > bytes')) ∧
      compare heap .eq (.string s) (.string t) = .ok (.bool (bytes = bytes')) ∧
      compare heap .ne (.string s) (.string t) = .ok (.bool (bytes ≠ bytes')) := by
  have apart : decide (t < s) → ¬decide (s < t) := by
    simp only [decide_eq_true_iff]
    exact Std.not_gt_of_lt
  intro bytes bytes'
  simp only [bytes, bytes', gt_iff_lt, ← Text.Utf8.lt_iff_encode_lt, ne_eq, Text.Utf8.encode_inj]
  obtain ⟨equal, unequal⟩ := @compare_simple heap (.string s) (.string t) trivial trivial
  refine ⟨?_, ?_, ?_, ?_⟩
  · rw [compare_strings (by decide) (by decide), order_lt]
  · rw [compare_strings (by decide) (by decide), order_gt apart]
  · rw [equal, alike, beq_eq_decide]
  · rw [unequal, alike, beq_eq_decide, decide_not]

theorem compare_lt_eq_true_iff : compare heap .lt a b = .ok (.bool true) ↔
    (∃ x y, a = .number x ∧ b = .number y ∧ x < y) ∨ ∃ s t, a = .string s ∧ b = .string t ∧ s < t := by
  constructor
  · intro less
    cases a with
    | number x =>
      cases b with
      | number y =>
        rw [compare_numbers (by decide) (by decide), order_lt] at less
        simp only [Except.ok.injEq, Value.bool.injEq, decide_eq_true_iff] at less
        exact Or.inl ⟨x, y, rfl, rfl, less⟩
      | _ => cases less
    | string s =>
      cases b with
      | string t =>
        rw [compare_strings (by decide) (by decide), order_lt] at less
        simp only [Except.ok.injEq, Value.bool.injEq, decide_eq_true_iff] at less
        exact Or.inr ⟨s, t, rfl, rfl, less⟩
      | _ => cases less
    | _ => cases less
  · rintro (⟨x, y, rfl, rfl, less⟩ | ⟨s, t, rfl, rfl, less⟩)
    · rw [compare_numbers (by decide) (by decide), order_lt, decide_eq_true less]
    · rw [compare_strings (by decide) (by decide), order_lt, decide_eq_true less]

theorem compare_lt_trans (first : compare heap .lt a b = .ok (.bool true))
    (second : compare heap .lt b c = .ok (.bool true)) : compare heap .lt a c = .ok (.bool true) := by
  rw [compare_lt_eq_true_iff] at first second ⊢
  rcases first with ⟨x, y, rfl, rfl, less⟩ | ⟨s, t, rfl, rfl, less⟩
  · rcases second with ⟨y', z, same, rfl, less'⟩ | ⟨s, t, same, -⟩
    · cases same
      exact Or.inl ⟨x, z, rfl, rfl, Binary64.lt_of_lt_of_lt less less'⟩
    · cases same
  · rcases second with ⟨y', z, same, -⟩ | ⟨t', u, same, rfl, less'⟩
    · cases same
    · cases same
      exact Or.inr ⟨s, u, rfl, rfl, Std.lt_trans less less'⟩

/-- The comparisons of numbers that are defined and of strings are coherent, an
undefined number is neither less, equal nor greater, being less is transitive,
numbers are compared as numbers and strings as their bytes. -/
theorem comparison_coherent (heap : Heap) :
    (∀ x y : Float, ¬x.isNaN → ¬y.isNaN → Coherent heap (.number x) (.number y)) ∧
    (∀ s t : String, Coherent heap (.string s) (.string t)) ∧
    (∀ x y : Float, x.isNaN ∨ y.isNaN → ∀ op ∈ [CompareOp.lt, .eq, .gt],
      compare heap op (.number x) (.number y) = .ok (.bool false)) ∧
    (∀ a b c, compare heap .lt a b = .ok (.bool true) → compare heap .lt b c = .ok (.bool true) →
      compare heap .lt a c = .ok (.bool true)) ∧
    (∀ x y : Float, compare heap .lt (.number x) (.number y) = .ok (.bool (x < y)) ∧
      compare heap .gt (.number x) (.number y) = .ok (.bool (x > y)) ∧
      compare heap .eq (.number x) (.number y) = .ok (.bool (x == y)) ∧
      compare heap .ne (.number x) (.number y) = .ok (.bool (x != y))) ∧
    ∀ s t : String,
      let bytes := Text.Utf8.encode s
      let bytes' := Text.Utf8.encode t
      compare heap .lt (.string s) (.string t) = .ok (.bool (bytes < bytes')) ∧
        compare heap .gt (.string s) (.string t) = .ok (.bool (bytes > bytes')) ∧
        compare heap .eq (.string s) (.string t) = .ok (.bool (bytes = bytes')) ∧
        compare heap .ne (.string s) (.string t) = .ok (.bool (bytes ≠ bytes')) := by
  refine ⟨fun x y => numbers_coherent, strings_coherent, ?_, fun a b c => compare_lt_trans,
    compare_as_numbers heap, compare_as_bytes heap⟩
  intro x y undefined op member
  obtain ⟨less, greater, equal, -⟩ := compare_as_numbers heap x y
  obtain ⟨below, same, above⟩ := Binary64.apart_of_isNaN undefined
  simp only [List.mem_cons, List.not_mem_nil, or_false] at member
  rcases member with rfl | rfl | rfl
  · rw [less, decide_eq_false below]
  · rw [equal, Bool.eq_false_of_not_eq_true same]
  · rw [greater, decide_eq_false above]

theorem comparison_coherent_ends :
    Coherent {} (.number 1) (.number (1 / 0)) ∧ Coherent {} (.string "a") (.string "b") ∧
      compare {} .lt (.string "a") (.string "c") = .ok (.bool true) ∧
      compare {} .eq (.number (0 / 0)) (.number (0 / 0)) = .ok (.bool false) := by
  obtain ⟨numbers, strings, unordered, trans, -⟩ := comparison_coherent {}
  have first : compare {} .lt (.string "a") (.string "b") = .ok (.bool true) := by decide +kernel
  have second : compare {} .lt (.string "b") (.string "c") = .ok (.bool true) := by decide +kernel
  refine ⟨numbers 1 (1 / 0) (by decide +kernel) (by decide +kernel), strings "a" "b", trans _ _ _ first second, ?_⟩
  exact unordered (0 / 0) (0 / 0) (Or.inl (by decide +kernel)) .eq (by simp)

/-- A power too great for a number is infinite, and less itself it is undefined:
a number that programs compute, of which none of the three is true. -/
theorem undefined_incoherent :
    ∃ i n, arith .pow (.number 10) (.number 400) = .ok i ∧ arith .sub i i = .ok n ∧
      compare {} .lt n n = .ok (.bool false) ∧ compare {} .eq n n = .ok (.bool false) ∧
      compare {} .gt n n = .ok (.bool false) ∧ ¬Coherent {} n n := by
  have less : compare {} .lt (.number (0 / 0)) (.number (0 / 0)) = .ok (.bool false) := by decide +kernel
  have equal : compare {} .eq (.number (0 / 0)) (.number (0 / 0)) = .ok (.bool false) := by decide +kernel
  have greater : compare {} .gt (.number (0 / 0)) (.number (0 / 0)) = .ok (.bool false) := by decide +kernel
  refine ⟨.number (1 / 0), .number (0 / 0), by decide +kernel, by decide +kernel, less, equal, greater, ?_⟩
  rintro ⟨l, e, g, one, lt, eq, gt, -⟩
  rw [less, Except.ok.injEq, Value.bool.injEq] at lt
  rw [equal, Except.ok.injEq, Value.bool.injEq] at eq
  rw [greater, Except.ok.injEq, Value.bool.injEq] at gt
  subst lt eq gt
  simp at one

end ScriptKernel.Lumen
