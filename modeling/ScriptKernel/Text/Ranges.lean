/-!
Sets of characters given by ranges of code points, the form in which the
character classes below are tabulated.
-/

namespace ScriptKernel.Text

def inRanges (ranges : List (Nat × Nat)) (code : Nat) : Bool :=
  ranges.any fun range => range.1 ≤ code && code ≤ range.2

theorem inRanges_iff (ranges : List (Nat × Nat)) (code : Nat) :
    inRanges ranges code = true ↔ ∃ range ∈ ranges, range.1 ≤ code ∧ code ≤ range.2 := by
  simp [inRanges, List.any_eq_true]

/-- A statement about the characters of a text is decided by a walk along the
text. The priority is above that of the instance that tries every character. -/
instance (priority := 2000) decidableForallMem (p : Char → Prop) [DecidablePred p] (text : List Char) :
    Decidable (∀ c ∈ text, p c) :=
  List.decidableBAll p text

end ScriptKernel.Text
