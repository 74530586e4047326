import ScriptKernel.Proofs.Number.Values

/-!
The order of all numbers. Every number but the undefined one stands somewhere:
at what it is worth, or for an infinity beyond all that. Less and equal are
decided by where two numbers stand, so they behave as in any linear order, and
the undefined number is neither less than, equal to nor greater than any other.
-/

namespace ScriptKernel.Binary64

open Float.Model (UnpackedFloat)
open Float.Model.UnpackedFloat

abbrev Line := WithBot (WithTop ℚ)

def Line.at (q : ℚ) : Line := ((q : WithTop ℚ) : WithBot (WithTop ℚ))

theorem Line.compare_at (p q : ℚ) : compare (Line.at p) (Line.at q) = compare p q := by
  rcases lt_trichotomy p q with less | rfl | greater
  · rw [compare_lt_iff_lt.2 less, compare_lt_iff_lt, Line.at, Line.at, WithBot.coe_lt_coe, WithTop.coe_lt_coe]
    exact less
  · rw [compare_eq_iff_eq.2 rfl, compare_eq_iff_eq.2 rfl]
  · rw [compare_gt_iff_gt.2 greater, compare_gt_iff_gt, Line.at, Line.at, WithBot.coe_lt_coe, WithTop.coe_lt_coe]
    exact greater

theorem Line.bot_lt_at (q : ℚ) : (⊥ : Line) < Line.at q :=
  WithBot.bot_lt_coe _

theorem Line.at_lt_top (q : ℚ) : Line.at q < (⊤ : Line) :=
  WithBot.coe_lt_coe.2 (WithTop.coe_lt_top q)

def placeOf : UnpackedFloat → Option Line
  | .notANumber => none
  | .infinity .negative => some ⊥
  | .infinity .positive => some ⊤
  | u => (worth? u).map Line.at

/-- Where a number stands; the undefined one stands nowhere. -/
def place? (x : Float) : Option Line :=
  placeOf x.toModel.unpack

theorem placeOf_cases {u : UnpackedFloat} {p : Line} (placed : placeOf u = some p) :
    (u = .infinity .negative ∧ p = ⊥) ∨ (u = .infinity .positive ∧ p = ⊤) ∨ ∃ q, worth? u = some q ∧ p = Line.at q := by
  cases u with
  | notANumber => cases placed
  | infinity sign =>
    cases sign with
    | negative =>
      cases placed
      exact Or.inl ⟨rfl, rfl⟩
    | positive =>
      cases placed
      exact Or.inr (Or.inl ⟨rfl, rfl⟩)
  | zero sign =>
    cases placed
    exact Or.inr (Or.inr ⟨_, rfl, rfl⟩)
  | finite sign m e positive =>
    cases placed
    exact Or.inr (Or.inr ⟨_, rfl, rfl⟩)

theorem compare_infinity {u : UnpackedFloat} {q : ℚ} (worth : worth? u = some q) :
    UnpackedFloat.compare u (.infinity .negative) = some .gt ∧
      UnpackedFloat.compare u (.infinity .positive) = some .lt ∧
      UnpackedFloat.compare (.infinity .negative) u = some .lt ∧
      UnpackedFloat.compare (.infinity .positive) u = some .gt := by
  cases u with
  | notANumber => cases worth
  | infinity sign => cases worth
  | zero sign => exact ⟨rfl, rfl, rfl, rfl⟩
  | finite sign m e positive => cases sign <;> exact ⟨rfl, rfl, rfl, rfl⟩

theorem compare_place {a b : UnpackedFloat} {p q : Line} (proper : Proper a) (proper' : Proper b)
    (placed : placeOf a = some p) (placed' : placeOf b = some q) : UnpackedFloat.compare a b = some (compare p q) := by
  have ends : (⊥ : Line) < ⊤ := bot_lt_top
  rcases placeOf_cases placed with ⟨rfl, rfl⟩ | ⟨rfl, rfl⟩ | ⟨v, worth, rfl⟩
  · rcases placeOf_cases placed' with ⟨rfl, rfl⟩ | ⟨rfl, rfl⟩ | ⟨w, worth', rfl⟩
    · rw [compare_eq_iff_eq.2 rfl]
      rfl
    · rw [compare_lt_iff_lt.2 ends]
      rfl
    · rw [compare_lt_iff_lt.2 (Line.bot_lt_at w)]
      exact (compare_infinity worth').2.2.1
  · rcases placeOf_cases placed' with ⟨rfl, rfl⟩ | ⟨rfl, rfl⟩ | ⟨w, worth', rfl⟩
    · rw [compare_gt_iff_gt.2 ends]
      rfl
    · rw [compare_eq_iff_eq.2 rfl]
      rfl
    · rw [compare_gt_iff_gt.2 (Line.at_lt_top w)]
      exact (compare_infinity worth').2.2.2
  · rcases placeOf_cases placed' with ⟨rfl, rfl⟩ | ⟨rfl, rfl⟩ | ⟨w, worth', rfl⟩
    · rw [compare_gt_iff_gt.2 (Line.bot_lt_at v)]
      exact (compare_infinity worth).1
    · rw [compare_lt_iff_lt.2 (Line.at_lt_top v)]
      exact (compare_infinity worth).2.1
    · rw [Line.compare_at]
      exact compare_worth proper proper' worth worth'

theorem eq_notANumber {u : UnpackedFloat} (unplaced : placeOf u = none) : u = .notANumber := by
  cases u with
  | notANumber => rfl
  | infinity sign => cases sign <;> cases unplaced
  | zero sign => cases unplaced
  | finite sign m e positive => cases unplaced

theorem compare_unplaced {a b : UnpackedFloat} (unplaced : placeOf a = none ∨ placeOf b = none) :
    UnpackedFloat.compare a b = none := by
  rcases unplaced with left | right
  · obtain rfl := eq_notANumber left
    cases b <;> rfl
  · obtain rfl := eq_notANumber right
    cases a with
    | notANumber => rfl
    | infinity sign => cases sign <;> rfl
    | zero sign => rfl
    | finite sign m e positive => cases sign <;> rfl

theorem compare_eq_some_iff {x y : Float} {o : Ordering} :
    UnpackedFloat.compare x.toModel.unpack y.toModel.unpack = some o ↔
      ∃ p q, place? x = some p ∧ place? y = some q ∧ compare p q = o := by
  cases left : place? x with
  | none =>
    rw [compare_unplaced (Or.inl left)]
    simp
  | some p =>
    cases right : place? y with
    | none =>
      rw [compare_unplaced (Or.inr right)]
      simp
    | some q =>
      rw [compare_place (unpack_proper x) (unpack_proper y) left right]
      simp

theorem lt_iff_place {x y : Float} : x < y ↔ ∃ p q, place? x = some p ∧ place? y = some q ∧ p < q := by
  change decide (x.toModel < y.toModel) = true ↔ _
  rw [decide_eq_true_iff]
  change UnpackedFloat.lt x.toModel.unpack y.toModel.unpack = true ↔ _
  rw [UnpackedFloat.lt, beq_iff_eq, compare_eq_some_iff]
  simp only [compare_lt_iff_lt]

theorem beq_iff_place {x y : Float} : x == y ↔ ∃ p, place? x = some p ∧ place? y = some p := by
  change UnpackedFloat.beq x.toModel.unpack y.toModel.unpack = true ↔ _
  rw [UnpackedFloat.beq, beq_iff_eq, compare_eq_some_iff]
  simp only [compare_eq_iff_eq]
  constructor
  · rintro ⟨p, q, left, right, rfl⟩
    exact ⟨p, left, right⟩
  · rintro ⟨p, left, right⟩
    exact ⟨p, p, left, right, rfl⟩

theorem lt_iff_lt_place {x y : Float} {p q : Line} (left : place? x = some p) (right : place? y = some q) :
    x < y ↔ p < q := by
  rw [lt_iff_place, left, right]
  simp

theorem beq_iff_eq_place {x y : Float} {p q : Line} (left : place? x = some p) (right : place? y = some q) :
    x == y ↔ p = q := by
  rw [beq_iff_place, left, right]
  simp [eq_comm]

theorem lt_of_lt_of_lt {x y z : Float} (first : x < y) (second : y < z) : x < z := by
  obtain ⟨p, q, left, middle, below⟩ := lt_iff_place.1 first
  obtain ⟨q', r, middle', right, above⟩ := lt_iff_place.1 second
  obtain rfl : q = q' := Option.some_inj.1 (middle.symm.trans middle')
  exact lt_iff_place.2 ⟨p, r, left, right, below.trans above⟩

theorem not_lt_of_lt {x y : Float} (less : x < y) : ¬y < x := by
  intro greater
  obtain ⟨p, q, left, right, below⟩ := lt_iff_place.1 (lt_of_lt_of_lt less greater)
  obtain rfl : p = q := Option.some_inj.1 (left.symm.trans right)
  exact lt_irrefl p below

theorem isNaN_iff_place {x : Float} : x.isNaN ↔ place? x = none := by
  change x.toModel.unpack.isNaN = true ↔ placeOf x.toModel.unpack = none
  constructor
  · intro undefined
    cases shape : x.toModel.unpack with
    | notANumber => rfl
    | _ =>
      rw [shape] at undefined
      cases undefined
  · intro unplaced
    rw [eq_notANumber unplaced]
    rfl

theorem apart_of_isNaN {x y : Float} (undefined : x.isNaN ∨ y.isNaN) : ¬x < y ∧ ¬x == y ∧ ¬y < x := by
  rw [lt_iff_place, lt_iff_place, beq_iff_place]
  rcases undefined with left | right
  · rw [isNaN_iff_place] at left
    simp [left]
  · rw [isNaN_iff_place] at right
    simp [right]

end ScriptKernel.Binary64
