import ScriptKernel.Proofs.Layout.Retention
import ScriptKernel.Proofs.Parse.Progress

/-!
Open brackets and strings. The layout keeps count of the brackets that are open
and knows whether it is inside a string. Lexemes are balanced between two
depths when they take the one to the other, from code to code; markers do not
count. What is dropped on the way to the stream turns nothing, so that a
balanced stream comes from an input at whose end all is closed.
-/

namespace ScriptKernel.Layout.Indentation

variable {rules : Indentation} {a b c depth : Nat} {l : Lexeme} {first second lexemes : List Lexeme}

def turn (rules : Indentation) (at_ : Nat × Mode) (l : Lexeme) : Nat × Mode :=
  if l.synthetic then at_
  else match at_.2 with
    | .string quote escaped => (at_.1, (rules.keepInString {} quote escaped l).mode)
    | _ => ((rules.keep { depth := at_.1 } l).depth, (rules.keep { depth := at_.1 } l).mode)

/-- The lexemes lead from one depth of brackets to another, however many
brackets are open around them. -/
def Balanced (rules : Indentation) (a b : Nat) (lexemes : List Lexeme) : Prop :=
  ∀ depth, lexemes.foldl rules.turn (depth + a, .code) = (depth + b, .code)

theorem balanced_nil (rules : Indentation) (a : Nat) : rules.Balanced a a [] :=
  fun _ => rfl

theorem Balanced.append (balanced : rules.Balanced a b first) (later : rules.Balanced b c second) :
    rules.Balanced a c (first ++ second) := by
  intro depth
  rw [List.foldl_append, balanced depth, later depth]

theorem balanced_marker (marker : l.synthetic = true) (a : Nat) : rules.Balanced a a [l] := by
  intro depth
  simp [turn, marker]

theorem balanced_plain (quotes : l.text ∉ rules.quotes) (opening : l.text ∉ rules.opening)
    (closing : l.text ∉ rules.closing) (a : Nat) : rules.Balanced a a [l] := by
  intro depth
  cases marker : l.synthetic with
  | true => exact balanced_marker marker a depth
  | false => simp [turn, marker, keep, quotes, opening, closing]

theorem balanced_open (source : l.synthetic = false) (quotes : l.text ∉ rules.quotes)
    (opening : l.text ∈ rules.opening) (a : Nat) : rules.Balanced a (a + 1) [l] := by
  intro depth
  simp [turn, source, keep, quotes, opening, Nat.add_assoc]

theorem balanced_close (source : l.synthetic = false) (quotes : l.text ∉ rules.quotes)
    (opening : l.text ∉ rules.opening) (closing : l.text ∈ rules.closing) (a : Nat) :
    rules.Balanced (a + 1) a [l] := by
  intro depth
  simp [turn, source, keep, quotes, opening, closing, ← Nat.add_assoc]

theorem quoted_turns {quote : String} (escape : rules.escape = "\\") (unescaped : quote ≠ "\\")
    (quoted : Walk.Quoted quote lexemes) (depth : Nat) :
    lexemes.foldl rules.turn (depth, .string quote false) = (depth, .code) := by
  induction quoted with
  | close source ends => simp [turn, source, keepInString, ends, escape, unescaped]
  | escape source inside escapes behind later ih =>
    simp only [List.foldl_cons, turn, source, behind, keepInString, escapes, escape]
    exact ih
  | plain source inside plain later ih =>
    simp only [List.foldl_cons, turn, source, keepInString, escape, if_neg plain, if_neg inside]
    exact ih

theorem balanced_string {quote : String} (escape : rules.escape = "\\") (unescaped : quote ≠ "\\")
    (nonempty : quote ≠ "") (known : quote ∈ rules.quotes) (source : l.synthetic = false) (opens : l.text = quote)
    (quoted : Walk.Quoted quote lexemes) (a : Nat) : rules.Balanced a a (l :: lexemes) := by
  intro depth
  have opened : rules.turn (depth + a, .code) l = (depth + a, .string quote false) := by
    simp [turn, source, keep, opens, known, nonempty]
  rw [List.foldl_cons, opened]
  exact quoted_turns escape unescaped quoted (depth + a)

/-- A position as the lexemes of the stream show it: they do not show comments. -/
def Position.standing (p : Position) : Nat × Mode :=
  (p.depth, if p.mode = .comment then .code else p.mode)

theorem foldl_turn_source (at_ : Nat × Mode) (lexemes : List Lexeme) :
    (lexemes.filter (!·.synthetic)).foldl rules.turn at_ = lexemes.foldl rules.turn at_ := by
  induction lexemes generalizing at_ with
  | nil => rfl
  | cons l lexemes ih =>
    cases marker : l.synthetic with
    | true =>
      rw [List.filter_cons_of_neg (by simp [marker]), ih, List.foldl_cons]
      simp [turn, marker]
    | false => rw [List.filter_cons_of_pos (by simp [marker]), List.foldl_cons, List.foldl_cons, ih]

def Blankless (rules : Indentation) : Prop :=
  ∀ text ∈ rules.quotes ++ (rules.opening ++ rules.closing), isBlank text = false

theorem turn_string (source : l.synthetic = false) (quote : String) (escaped : Bool) :
    rules.turn (depth, .string quote escaped) l =
      ((⟨.string quote escaped, depth⟩ : Position).next rules l.text).standing := by
  simp only [turn, source, Bool.false_eq_true, if_false, keepInString, Position.next]
  cases escaped with
  | true => rfl
  | false =>
    simp only [Bool.false_eq_true, if_false]
    split
    · rfl
    · split
      · rfl
      · rfl

theorem turn_code (source : l.synthetic = false) (uncommented : ¬(rules.comment ≠ "" ∧ l.text = rules.comment)) :
    rules.turn (depth, .code) l = ((⟨.code, depth⟩ : Position).afterCode rules l.text).standing := by
  simp only [turn, source, Bool.false_eq_true, if_false, Position.afterCode, if_neg uncommented, keep]
  split
  · split
    · rfl
    · rfl
  · split
    · rfl
    · split
      · rfl
      · rfl

theorem turn_blank (blankless : rules.Blankless) (blank : isBlank l.text = true) :
    rules.turn (depth, .code) l = (depth, .code) := by
  have other : ∀ texts ⊆ rules.quotes ++ (rules.opening ++ rules.closing), l.text ∉ texts := by
    intro texts within member
    rw [blankless _ (within member)] at blank
    cases blank
  have plain : rules.Balanced 0 0 [l] :=
    balanced_plain (other _ (by simp)) (other _ (by simp)) (other _ (by simp)) 0
  exact plain depth

theorem turn_fateAt (blankless : rules.Blankless) (r : Reading) (source : l.synthetic = false) :
    (if (rules.fateAt r l).kept then [l] else []).foldl rules.turn r.position.standing =
      (r.position.next rules l.text).standing := by
  obtain ⟨spaces, tab, kept, depth, mode⟩ := r
  cases mode with
  | string quote escaped => exact turn_string source quote escaped
  | comment =>
    by_cases newline : l.text = "\n"
    · simp [fateAt, Reading.position, Position.standing, Position.next, newline]
    · simp [fateAt, Reading.position, Position.standing, Position.next, newline]
  | code =>
    have code : (⟨.code, depth⟩ : Position).standing = (depth, .code) := rfl
    simp only [fateAt, Reading.position, Position.next, code]
    by_cases ends : l.text = "\n" ∨ l.text = "\r"
    · rw [if_pos ends, if_pos (ends.imp_right Or.inl)]
      rfl
    rw [if_neg ends]
    by_cases blank : isBlank l.text = true
    · rw [if_pos blank, if_pos (Or.inr (Or.inr blank)), code]
      cases kept.isEmpty with
      | true => rfl
      | false => exact turn_blank blankless blank
    have content : ¬(l.text = "\n" ∨ l.text = "\r" ∨ isBlank l.text = true) := by
      rw [← or_assoc]
      exact not_or.mpr ⟨ends, blank⟩
    rw [if_neg blank, if_neg content]
    by_cases comment : rules.comment ≠ "" ∧ l.text = rules.comment
    · rw [if_pos comment, Position.afterCode, if_pos comment]
      rfl
    · rw [if_neg comment]
      exact turn_code source comment

theorem turn_fates (blankless : rules.Blankless) (r : Reading) (source : ∀ l ∈ lexemes, l.synthetic = false) :
    (((rules.fates r lexemes).filter (·.kept)).map (·.lexeme)).foldl rules.turn r.position.standing =
      (rules.read r lexemes).2.position.standing := by
  induction lexemes generalizing r with
  | nil => rfl
  | cons l lexemes ih =>
    rw [List.forall_mem_cons] at source
    have step := turn_fateAt blankless r source.1
    rw [← position_advance] at step
    rw [fates, read, ← ih _ source.2, ← step, ← List.foldl_append]
    congr 1
    cases kept : (rules.fateAt r l).kept with
    | true => simp [kept, fateAt_lexeme]
    | false => simp [kept]

theorem closed_of_balanced {aliases : Aliases} (blankless : rules.Blankless)
    (source : ∀ l ∈ first, l.synthetic = false) (applied : rules.apply aliases first = .ok second)
    (balanced : rules.Balanced 0 0 second) :
    (rules.read {} first).2.position.inString = false ∧ (rules.read {} first).2.depth = 0 := by
  have turned := balanced 0
  rw [← foldl_turn_source, apply_source applied source, Indentation.lines, linesFrom_fates] at turned
  have ends : (0, Mode.code) = (rules.read {} first).2.position.standing :=
    turned.symm.trans (turn_fates blankless {} source)
  obtain ⟨depth, mode⟩ := Prod.mk.inj ends
  refine ⟨?_, depth.symm⟩
  cases here : (rules.read {} first).2.position.mode with
  | code => simp [Position.inString, here]
  | comment => simp [Position.inString, here]
  | string quote escaped => simp [here] at mode

end ScriptKernel.Layout.Indentation
