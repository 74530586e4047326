import Mathlib.Data.List.Basic
import ScriptKernel.Capability.Key

/-!
Parentheses in selectors. The readers of a selector text each keep a depth of
their own. Here it is one partial count, which has no value once a parenthesis
closes that none has opened, and each reader is followed along it.
-/

namespace ScriptKernel.Selector

def isMark (c : Char) : Bool := c = '(' || c = ')' || c = '|' || c = ':'

def Plain (text : List Char) : Prop := ∀ c ∈ text, isMark c = false

def apart (these those : List (Nat × Nat)) : Bool :=
  these.all fun a => those.all fun b => Nat.blt a.2 b.1 || Nat.blt b.2 a.1

theorem not_inRanges_of_apart {these those : List (Nat × Nat)} (separate : apart these those = true) {code : Nat}
    (inThese : Text.inRanges these code = true) : Text.inRanges those code = false := by
  rw [Bool.eq_false_iff]
  intro inThose
  obtain ⟨a, one, low, high⟩ := (Text.inRanges_iff these code).mp inThese
  obtain ⟨b, other, low', high'⟩ := (Text.inRanges_iff those code).mp inThose
  simp only [apart, List.all_eq_true, Bool.or_eq_true, Nat.blt_eq] at separate
  rcases separate a one b other with below | above <;> omega

theorem not_isBlank_of_isWordChar {c : Char} (word : Text.isWordChar c = true) : Text.isBlank c = false := by
  have ascii : ∀ n < 0x80, Text.isWordChar (Char.ofNat n) = true → Text.inRanges Text.blankRanges n = false := by
    decide +kernel
  by_cases low : c.toNat < 0x80
  · exact ascii c.toNat low (by rwa [Char.ofNat_toNat])
  · have letters : apart Text.letterRanges Text.blankRanges = true := by decide +kernel
    have digits : apart Text.digitRanges Text.blankRanges = true := by decide +kernel
    simp only [Text.isWordChar, Text.isLetter, Text.isDigit, if_neg low, Bool.or_eq_true, beq_iff_eq] at word
    rcases word with (rfl | letter) | digit
    · exact absurd (by decide) low
    · exact not_inRanges_of_apart letters letter
    · exact not_inRanges_of_apart digits digit

theorem not_isMark_of {p : Char → Bool} (apart : p '(' = false ∧ p ')' = false ∧ p '|' = false ∧ p ':' = false)
    {c : Char} (member : p c = true) : isMark c = false := by
  rw [Bool.eq_false_iff]
  intro mark
  simp only [isMark, Bool.or_eq_true, decide_eq_true_eq] at mark
  rcases mark with ((rfl | rfl) | rfl) | rfl <;> simp [apart] at member

theorem not_isMark_of_isWordChar {c : Char} (word : Text.isWordChar c = true) : isMark c = false :=
  not_isMark_of (by decide) word

/-- The depth behind the text, unless a parenthesis closes that none has opened. -/
def nesting : Nat → List Char → Option Nat
  | depth, [] => some depth
  | depth, c :: rest =>
    if c = '(' then nesting (depth + 1) rest
    else if c = ')' then
      if depth = 0 then none else nesting (depth - 1) rest
    else nesting depth rest

variable {depth reached : Nat} {text front rest : List Char}

@[simp] theorem nesting_nil : nesting depth [] = some depth := rfl

@[simp] theorem nesting_opening : nesting depth ('(' :: rest) = nesting (depth + 1) rest := by
  rw [nesting, if_pos rfl]

@[simp] theorem nesting_closing : nesting (depth + 1) (')' :: rest) = nesting depth rest := by
  rw [nesting, if_neg (by decide), if_pos rfl, if_neg depth.succ_ne_zero, Nat.add_sub_cancel]

@[simp] theorem nesting_unopened : nesting 0 (')' :: rest) = none := by
  rw [nesting, if_neg (by decide), if_pos rfl, if_pos rfl]

theorem nesting_other {c : Char} (other : c ≠ '(' ∧ c ≠ ')') : nesting depth (c :: rest) = nesting depth rest := by
  rw [nesting, if_neg other.1, if_neg other.2]

theorem nesting_append (depth : Nat) (front rest : List Char) :
    nesting depth (front ++ rest) = (nesting depth front).bind (nesting · rest) := by
  induction front generalizing depth with
  | nil => rfl
  | cons c front ih =>
    by_cases opening : c = '('
    · subst opening
      simp [ih]
    by_cases closing : c = ')'
    · subst closing
      cases depth with
      | zero => simp
      | succ depth => simp [ih]
    rw [List.cons_append, nesting_other ⟨opening, closing⟩, nesting_other ⟨opening, closing⟩, ih]

theorem nesting_add (inside : nesting depth text = some reached) (more : Nat) :
    nesting (depth + more) text = some (reached + more) := by
  induction text generalizing depth with
  | nil =>
    cases inside
    rfl
  | cons c text ih =>
    by_cases opening : c = '('
    · subst opening
      rw [nesting_opening] at inside ⊢
      rw [Nat.add_right_comm]
      exact ih inside
    by_cases closing : c = ')'
    · subst closing
      cases depth with
      | zero => simp at inside
      | succ depth =>
        rw [nesting_closing] at inside
        rw [Nat.add_right_comm, nesting_closing]
        exact ih inside
    rw [nesting_other ⟨opening, closing⟩] at inside ⊢
    exact ih inside

/-- No front closes more parentheses than it opens, and the whole closes all. -/
def Balanced (text : List Char) : Prop :=
  (∀ front, front <+: text → front.count ')' ≤ front.count '(') ∧ text.count ')' = text.count '('

theorem forall_prefix_cons {c : Char} {P : List Char → Prop} :
    (∀ front, front <+: c :: rest → P front) ↔ P [] ∧ ∀ front, front <+: rest → P (c :: front) := by
  constructor
  · intro all
    exact ⟨all [] List.nil_prefix, fun front within => all (c :: front) (List.cons_prefix_cons.mpr ⟨rfl, within⟩)⟩
  · rintro ⟨none, longer⟩ front within
    cases front with
    | nil => exact none
    | cons b front =>
      obtain ⟨rfl, inner⟩ := List.cons_prefix_cons.mp within
      exact longer front inner

theorem nesting_eq_some_iff : nesting depth text = some reached ↔
    (∀ front, front <+: text → front.count ')' ≤ depth + front.count '(') ∧
      reached + text.count ')' = depth + text.count '(' := by
  induction text generalizing depth with
  | nil => simp [eq_comm]
  | cons c text ih =>
    rw [forall_prefix_cons]
    by_cases opening : c = '('
    · subst opening
      rw [nesting_opening, ih]
      simp [Nat.add_assoc, Nat.add_comm 1]
    by_cases closing : c = ')'
    · subst closing
      cases depth with
      | zero =>
        have first := List.nil_prefix (l := text)
        simp only [nesting_unopened, List.count_cons_self]
        constructor
        · intro none
          cases none
        · rintro ⟨⟨-, fronts⟩, -⟩
          exact absurd (fronts [] first) (by simp)
      | succ depth =>
        rw [nesting_closing, ih]
        have fewer (front : List Char) : (')' :: front).count ')' ≤ depth + 1 + (')' :: front).count '(' ↔
            front.count ')' ≤ depth + front.count '(' := by
          rw [List.count_cons_self, List.count_cons_of_ne (by decide)]
          omega
        have even : reached + (')' :: text).count ')' = depth + 1 + (')' :: text).count '(' ↔
            reached + text.count ')' = depth + text.count '(' := by
          rw [List.count_cons_self, List.count_cons_of_ne (by decide)]
          omega
        simp only [fewer, even, List.count_nil, Nat.zero_le, true_and]
    rw [nesting_other ⟨opening, closing⟩, ih]
    simp [List.count_cons_of_ne opening, List.count_cons_of_ne closing]

theorem balanced_iff : Balanced text ↔ nesting 0 text = some 0 := by
  rw [nesting_eq_some_iff]
  simp [Balanced]

theorem closesEarly_append (inside : nesting depth text = some reached) (rest : List Char) :
    closesEarly (depth + 1 : Nat) (text ++ rest) = closesEarly (reached + 1 : Nat) rest := by
  induction text generalizing depth with
  | nil =>
    cases inside
    rfl
  | cons c text ih =>
    rw [List.cons_append, closesEarly]
    by_cases opening : c = '('
    · subst opening
      rw [nesting_opening] at inside
      simpa using ih inside
    by_cases closing : c = ')'
    · subst closing
      cases depth with
      | zero => simp at inside
      | succ depth =>
        rw [nesting_closing] at inside
        have deeper : (depth : Int) + 1 ≠ 0 := by omega
        simpa [deeper] using ih inside
    rw [nesting_other ⟨opening, closing⟩] at inside
    simpa [opening, closing] using ih inside

theorem closesEarly_of_none (leaves : nesting depth text = none) (more : rest ≠ []) :
    closesEarly (depth + 1 : Nat) (text ++ rest) = true := by
  induction text generalizing depth with
  | nil => cases leaves
  | cons c text ih =>
    rw [List.cons_append, closesEarly]
    by_cases opening : c = '('
    · subst opening
      rw [nesting_opening] at leaves
      simpa using ih leaves
    by_cases closing : c = ')'
    · subst closing
      cases depth with
      | zero => simp [more]
      | succ depth =>
        rw [nesting_closing] at leaves
        simpa using Or.inr (ih leaves)
    rw [nesting_other ⟨opening, closing⟩] at leaves
    simpa [opening, closing] using ih leaves

theorem isWrapped_append (inside : nesting 0 front = some 0) (more : rest ≠ []) (first : front ≠ []) :
    isWrapped (front ++ rest) = false := by
  obtain ⟨c, inner, rfl⟩ := List.exists_cons_of_ne_nil first
  by_cases opening : c = '('
  · subst opening
    rw [nesting_opening] at inside
    have leaves : nesting 0 inner = none := by
      cases deeper : nesting 0 inner with
      | none => rfl
      | some reached =>
        rw [nesting_add deeper 1] at inside
        cases inside
    have early : closesEarly 0 ('(' :: (inner ++ rest)) = true := by
      simpa [closesEarly] using closesEarly_of_none leaves more
    simp only [isWrapped, List.cons_append, early, Bool.not_true, Bool.and_false]
  · simp [isWrapped, opening]

theorem isWrapped_parenthesized (inside : nesting 0 text = some 0) : isWrapped ('(' :: (text ++ [')'])) = true := by
  have last : ('(' :: (text ++ [')'])).getLast? = some ')' := List.getLast?_concat (l := '(' :: text)
  have early := closesEarly_append inside [')']
  simpa [isWrapped, closesEarly, last] using early

theorem splitBars_ne_nil (depth : Int) (text : List Char) : splitBars depth text ≠ [] := by
  cases text with
  | nil => simp [splitBars]
  | cons c rest =>
    rw [splitBars]
    split
    · exact List.cons_ne_nil _ _
    · dsimp only
      generalize splitBars _ rest = pieces
      cases pieces <;> exact List.cons_ne_nil _ _

theorem splitBars_cons {c : Char} {depth : Int} (inside : ¬(c = '|' ∧ depth = 0)) (rest : List Char) :
    splitBars depth (c :: rest) =
      (splitBars (if c = '(' then depth + 1 else if c = ')' then depth - 1 else depth) rest).modifyHead (c :: ·) := by
  rw [splitBars, if_neg inside]
  obtain ⟨piece, pieces, cut⟩ := List.exists_cons_of_ne_nil
    (splitBars_ne_nil (if c = '(' then depth + 1 else if c = ')' then depth - 1 else depth) rest)
  simp only [cut, List.modifyHead_cons]

theorem splitBars_append (piece : '|' ∉ front) (inside : nesting depth front = some reached) (rest : List Char) :
    splitBars depth (front ++ rest) = (splitBars reached rest).modifyHead (front ++ ·) := by
  induction front generalizing depth with
  | nil =>
    cases inside
    exact (congrFun List.modifyHead_id (splitBars reached rest)).symm
  | cons c front ih =>
    rw [List.mem_cons, not_or] at piece
    rw [List.cons_append, splitBars_cons fun bar => piece.1 bar.1.symm]
    have step : ∃ next : Nat, nesting next front = some reached ∧
        (if c = '(' then (depth : Int) + 1 else if c = ')' then depth - 1 else depth) = next := by
      by_cases opening : c = '('
      · subst opening
        exact ⟨depth + 1, by simpa using inside, by simp⟩
      by_cases closing : c = ')'
      · subst closing
        cases depth with
        | zero => simp at inside
        | succ depth => exact ⟨depth, by simpa using inside, by simp⟩
      · rw [nesting_other ⟨opening, closing⟩] at inside
        exact ⟨depth, inside, by simp [opening, closing]⟩
    obtain ⟨next, inside, same⟩ := step
    rw [same, ih piece.2 inside, List.modifyHead_modifyHead]
    rfl

theorem Plain.append (plain : Plain front) (plain' : Plain rest) : Plain (front ++ rest) := by
  intro c within
  exact (List.mem_append.mp within).elim (plain c) (plain' c)

def Bare (text : List Char) : Prop := ∀ c ∈ text, c ≠ '(' ∧ c ≠ ')'

theorem Plain.bare (plain : Plain text) : Bare text := by
  intro c within
  have other := plain c within
  simp only [isMark, Bool.or_eq_false_iff, decide_eq_false_iff_not] at other
  exact other.1.1

theorem nesting_bare (bare : Bare text) : nesting depth text = some depth := by
  induction text with
  | nil => rfl
  | cons c text ih =>
    rw [nesting_other (bare c List.mem_cons_self)]
    exact ih fun b within => bare b (List.mem_cons_of_mem c within)

theorem nesting_plain (plain : Plain text) : nesting depth text = some depth := nesting_bare plain.bare

end ScriptKernel.Selector
