import ScriptKernel.Proofs.Layout.Steps

/-!
What the layout loses. The input is divided into string literals, comments and
code by looking for the end of each literal and each comment, and every lexeme
of it has a fate: it is in the stream, or it is missing from it. Missing are
only line ends, carriage returns, comments, and the blanks that nothing on their
logical line stands before.
-/

namespace ScriptKernel.Layout

inductive Part where
  | code
  | comment
  | literal
deriving Repr, DecidableEq

/-- A lexeme of the input, what it belongs to, and whether it is in the stream. -/
structure Fate where
  lexeme : Lexeme
  part : Part
  kept : Bool
deriving Repr, DecidableEq

def isSpace (text : String) : Bool :=
  text == "\n" || text == "\r" || Indentation.isBlank text

namespace Indentation

variable (rules : Indentation)

/-- The number of lexemes behind an opening quote that are in its literal: up to
the next such quote that no escape protects, or to the end of the input. -/
def literalLength (quote : String) : List Lexeme → Nat
  | [] => 0
  | [_] => 1
  | lexeme :: next :: rest =>
    if lexeme.text = rules.escape then literalLength quote rest + 2
    else if lexeme.text = quote then 1
    else literalLength quote (next :: rest) + 1

/-- The number of lexemes behind the start of a comment that are in it: up to
the next newline, or to the end of the input. -/
def commentLength (lexemes : List Lexeme) : Nat :=
  (lexemes.takeWhile (·.text != "\n")).length

def parts : List Lexeme → List Part
  | [] => []
  | lexeme :: rest =>
    if rules.quotes.contains lexeme.text then
      let length := rules.literalLength lexeme.text rest
      .literal :: (List.replicate length .literal ++ parts (rest.drop length))
    else if rules.comment ≠ "" ∧ lexeme.text = rules.comment then
      let length := commentLength rest
      .comment :: (List.replicate length .comment ++ parts (rest.drop length))
    else .code :: parts rest
termination_by lexemes => lexemes.length
decreasing_by all_goals simp only [List.length_drop, List.length_cons]; omega

/-- The comment prefix is no quote, and neither is a space. -/
structure Separate : Prop where
  comment : rules.comment ≠ "" → rules.comment ∉ rules.quotes
  space : ∀ text ∈ rules.comment :: rules.quotes, isSpace text = false

def nextDepth (depth : Nat) (fate : Fate) : Nat :=
  if fate.part ≠ .code ∨ isSpace fate.lexeme.text then depth
  else if rules.opening.contains fate.lexeme.text then depth + 1
  else if rules.closing.contains fate.lexeme.text then depth - 1
  else depth

def openBrackets (seen : List Fate) : Nat :=
  seen.foldl rules.nextDepth 0

/-- A newline in code ends the logical line unless brackets are open. -/
def EndsLine (before : List Fate) (fate : Fate) : Prop :=
  fate.part = .code ∧ fate.lexeme.text = "\n" ∧ rules.openBrackets before = 0

/-- None of the lexemes is in the stream and on the logical line that goes on
behind them: between it and what comes next its line has ended. -/
def Fresh (before : List Fate) : Prop :=
  ∀ earlier fate later, before = earlier ++ fate :: later → fate.kept = true →
    ∃ between newline rest, later = between ++ newline :: rest ∧
      rules.EndsLine (earlier ++ fate :: between) newline

/-- The lexeme may be missing from the stream. -/
def MayGo (before : List Fate) (fate : Fate) : Prop :=
  fate.part = .comment ∨
    fate.part = .code ∧ (fate.lexeme.text = "\n" ∨ fate.lexeme.text = "\r" ∨
      isBlank fate.lexeme.text = true ∧ rules.Fresh before)

def fateAt (r : Reading) (lexeme : Lexeme) : Fate :=
  match r.mode with
  | .string _ _ => ⟨lexeme, .literal, true⟩
  | .comment => if lexeme.text = "\n" then ⟨lexeme, .code, false⟩ else ⟨lexeme, .comment, false⟩
  | .code =>
    if lexeme.text = "\n" ∨ lexeme.text = "\r" then ⟨lexeme, .code, false⟩
    else if isBlank lexeme.text then ⟨lexeme, .code, !r.kept.isEmpty⟩
    else if rules.comment ≠ "" ∧ lexeme.text = rules.comment then ⟨lexeme, .comment, false⟩
    else ⟨lexeme, if rules.quotes.contains lexeme.text then .literal else .code, true⟩

def fates (r : Reading) : List Lexeme → List Fate
  | [] => []
  | lexeme :: rest => rules.fateAt r lexeme :: fates (rules.advance r lexeme).2 rest

variable {rules}

theorem fateAt_lexeme (r : Reading) (lexeme : Lexeme) : (rules.fateAt r lexeme).lexeme = lexeme := by
  unfold fateAt
  repeat' split
  all_goals rfl

theorem fates_lexemes (r : Reading) (lexemes : List Lexeme) :
    (rules.fates r lexemes).map (·.lexeme) = lexemes := by
  induction lexemes generalizing r with
  | nil => rfl
  | cons lexeme rest ih => rw [fates, List.map_cons, fateAt_lexeme, ih]

theorem finish_lexemes (r : Reading) : r.finish.toList.flatMap LogicalLine.lexemes = r.kept.reverse := by
  unfold Reading.finish
  split
  next none => simp [none]
  next first others some => simp [some, LogicalLine.lexemes]

theorem keepInCode_kept {r : Reading} (code : r.mode = .code) {lexeme : Lexeme} (other : lexeme.text ≠ "\n") :
    (rules.keepInCode r lexeme).kept.reverse =
      r.kept.reverse ++ if (rules.fateAt r lexeme).kept then [lexeme] else [] := by
  unfold keepInCode fateAt
  rw [code]
  simp only [other, false_or]
  by_cases returns : lexeme.text = "\r"
  · simp [returns]
  rw [if_neg returns, if_neg returns]
  by_cases blank : isBlank lexeme.text = true
  · rw [if_pos blank, if_pos blank]
    cases r.kept.isEmpty <;> simp
  rw [if_neg blank, if_neg blank]
  by_cases comment : rules.comment ≠ "" ∧ lexeme.text = rules.comment
  · simp [if_pos comment]
  · have kept : (rules.keep r lexeme).kept = lexeme :: r.kept := by
      unfold keep
      dsimp only
      repeat' split
      all_goals rfl
    rw [if_neg comment, if_neg comment, kept, List.reverse_cons]
    rfl

variable (rules) in
theorem advance_kept (r : Reading) (lexeme : Lexeme) :
    (rules.advance r lexeme).1.flatMap LogicalLine.lexemes ++ (rules.advance r lexeme).2.kept.reverse =
      r.kept.reverse ++ if (rules.fateAt r lexeme).kept then [lexeme] else [] := by
  have ended (dropped : (rules.fateAt r lexeme).kept = false) :
      r.finish.toList.flatMap LogicalLine.lexemes ++ ({} : Reading).kept.reverse =
        r.kept.reverse ++ if (rules.fateAt r lexeme).kept then [lexeme] else [] := by
    rw [finish_lexemes, dropped]
    rfl
  unfold advance
  cases mode : r.mode with
  | string quote escaped => simp [fateAt, mode, keepInString]
  | comment =>
    dsimp only
    by_cases newline : lexeme.text = "\n"
    · have dropped : (rules.fateAt r lexeme).kept = false := by simp [fateAt, mode, newline]
      rw [if_neg (not_not.mpr newline)]
      split
      · simp [dropped]
      · exact ended dropped
    · simp [fateAt, mode, newline]
  | code =>
    dsimp only
    by_cases newline : lexeme.text = "\n"
    · have dropped : (rules.fateAt r lexeme).kept = false := by simp [fateAt, mode, newline]
      rw [if_neg (not_not.mpr newline)]
      split
      · simp [dropped]
      · exact ended dropped
    · rw [if_pos newline]
      exact keepInCode_kept mode newline

theorem linesFrom_fates (r : Reading) (lexemes : List Lexeme) :
    (rules.linesFrom r lexemes).flatMap LogicalLine.lexemes =
      r.kept.reverse ++ ((rules.fates r lexemes).filter (·.kept)).map (·.lexeme) := by
  induction lexemes generalizing r with
  | nil => simp [linesFrom, finish_lexemes, fates]
  | cons lexeme rest ih =>
    rw [linesFrom_cons, List.flatMap_append, ih, ← List.append_assoc, advance_kept, fates, List.filter_cons]
    split <;> simp [fateAt_lexeme]

/-- So many lexemes belong to one part, and what is behind them is divided. -/
def within (rules : Indentation) (part : Part) (length : Nat) (lexemes : List Lexeme) : List Part :=
  List.replicate length part ++ rules.parts (lexemes.drop length)

/-- What the lexemes ahead belong to, by the state that those before have left. -/
def partsFrom (rules : Indentation) : Mode → List Lexeme → List Part
  | .code, lexemes => rules.parts lexemes
  | .comment, lexemes => rules.within .comment (commentLength lexemes) lexemes
  | .string quote false, lexemes => rules.within .literal (rules.literalLength quote lexemes) lexemes
  | .string _ true, [] => []
  | .string quote true, _ :: rest => .literal :: rules.within .literal (rules.literalLength quote rest) rest

theorem within_succ (part : Part) (length : Nat) (lexeme : Lexeme) (rest : List Lexeme) :
    rules.within part (length + 1) (lexeme :: rest) = part :: rules.within part length rest :=
  rfl

variable (rules) in
theorem mode_advance (r : Reading) (lexeme : Lexeme) :
    (rules.advance r lexeme).2.mode = (r.position.next rules lexeme.text).mode :=
  congrArg Position.mode (position_advance rules r lexeme)

theorem parts_code {lexeme : Lexeme} (unquoted : rules.quotes.contains lexeme.text = false)
    (uncommented : ¬(rules.comment ≠ "" ∧ lexeme.text = rules.comment)) (rest : List Lexeme) :
    rules.parts (lexeme :: rest) = .code :: rules.parts rest := by
  rw [parts, if_neg (ne_true_of_eq_false unquoted), if_neg uncommented]

theorem parts_space (separate : rules.Separate) {lexeme : Lexeme} (space : isSpace lexeme.text = true)
    (rest : List Lexeme) : rules.parts (lexeme :: rest) = .code :: rules.parts rest := by
  have other (text : String) (member : text ∈ rules.comment :: rules.quotes) : lexeme.text ≠ text := by
    intro same
    have visible := separate.space text member
    rw [← same, space] at visible
    cases visible
  apply parts_code
  · rw [List.contains_eq_mem, decide_eq_false_iff_not]
    exact fun member => other _ (List.mem_cons_of_mem _ member) rfl
  · exact fun comment => other _ List.mem_cons_self comment.2

theorem partsFrom_string (quote : String) (escaped : Bool) {r : Reading} (mode : r.mode = .string quote escaped)
    (lexeme : Lexeme) (rest : List Lexeme) :
    rules.partsFrom (.string quote escaped) (lexeme :: rest) =
      .literal :: rules.partsFrom (rules.advance r lexeme).2.mode rest := by
  have next := mode_advance rules r lexeme
  simp only [Reading.position, Position.next, mode] at next
  rw [next]
  cases escaped with
  | true => rfl
  | false =>
    simp only [Bool.false_eq_true, if_false]
    by_cases escape : lexeme.text = rules.escape
    · rw [if_pos escape]
      cases rest with
      | nil => simp [partsFrom, within, literalLength, parts]
      | cons protected_ rest =>
        simp only [partsFrom]
        rw [literalLength, if_pos escape, within_succ, within_succ]
    · rw [if_neg escape]
      by_cases closes : lexeme.text = quote
      · rw [if_pos closes]
        cases rest with
        | nil => simp [partsFrom, within, literalLength]
        | cons next rest =>
          simp only [partsFrom]
          rw [literalLength, if_neg escape, if_pos closes]
          rfl
      · rw [if_neg closes]
        cases rest with
        | nil => simp [partsFrom, within, literalLength]
        | cons next rest =>
          simp only [partsFrom]
          rw [literalLength, if_neg escape, if_neg closes, within_succ]

theorem partsFrom_comment (separate : rules.Separate) {r : Reading} (mode : r.mode = .comment) (lexeme : Lexeme)
    (rest : List Lexeme) :
    rules.partsFrom .comment (lexeme :: rest) =
      (rules.fateAt r lexeme).part :: rules.partsFrom (rules.advance r lexeme).2.mode rest := by
  have next := mode_advance rules r lexeme
  simp only [Reading.position, Position.next, mode] at next
  rw [next]
  simp only [fateAt, mode]
  by_cases newline : lexeme.text = "\n"
  · have ends : commentLength (lexeme :: rest) = 0 := by simp [commentLength, newline]
    rw [if_pos newline, if_pos newline]
    simp only [partsFrom]
    rw [ends]
    exact parts_space separate (by simp [isSpace, newline]) rest
  · have goesOn : commentLength (lexeme :: rest) = commentLength rest + 1 := by simp [commentLength, newline]
    rw [if_neg newline, if_neg newline]
    simp only [partsFrom]
    rw [goesOn, within_succ]

theorem partsFrom_code (separate : rules.Separate) {r : Reading} (mode : r.mode = .code) {lexeme : Lexeme}
    (nonempty : lexeme.text ≠ "") (rest : List Lexeme) :
    rules.partsFrom .code (lexeme :: rest) =
      (rules.fateAt r lexeme).part :: rules.partsFrom (rules.advance r lexeme).2.mode rest := by
  have next := mode_advance rules r lexeme
  simp only [Reading.position, Position.next, mode] at next
  rw [next, partsFrom]
  by_cases space : isSpace lexeme.text = true
  · have plain : lexeme.text = "\n" ∨ lexeme.text = "\r" ∨ isBlank lexeme.text = true := by
      simpa [isSpace, or_assoc] using space
    have code : (rules.fateAt r lexeme).part = .code := by
      simp only [fateAt, mode]
      by_cases line : lexeme.text = "\n" ∨ lexeme.text = "\r"
      · rw [if_pos line]
      · rw [if_neg line, if_pos (by tauto)]
    rw [parts_space separate space, code, if_pos plain]
    rfl
  · have other : ¬(lexeme.text = "\n" ∨ lexeme.text = "\r" ∨ isBlank lexeme.text = true) := by
      simpa [isSpace, or_assoc] using space
    have visible : ¬(lexeme.text = "\n" ∨ lexeme.text = "\r") ∧ ¬isBlank lexeme.text = true := by tauto
    rw [if_neg other, Position.afterCode]
    simp only [fateAt, mode]
    rw [if_neg visible.1, if_neg visible.2]
    by_cases comment : rules.comment ≠ "" ∧ lexeme.text = rules.comment
    · have unquoted : rules.quotes.contains lexeme.text = false := by
        rw [List.contains_eq_mem, decide_eq_false_iff_not, comment.2]
        exact separate.comment comment.1
      rw [if_pos comment, if_pos comment, parts, if_neg (ne_true_of_eq_false unquoted), if_pos comment]
      rfl
    · rw [if_neg comment, if_neg comment]
      cases quoted : rules.quotes.contains lexeme.text with
      | true =>
        rw [parts, if_pos quoted]
        simp only [if_true, if_neg nonempty]
        rfl
      | false =>
        rw [parts_code quoted comment]
        simp only [Bool.false_eq_true, if_false]
        split
        · rfl
        · split
          · rfl
          · rfl

/-- The reading divides the input as the search for the ends of literals and
comments does. -/
theorem fates_parts (separate : rules.Separate) (r : Reading) {lexemes : List Lexeme}
    (nonempty : ∀ lexeme ∈ lexemes, lexeme.text ≠ "") :
    (rules.fates r lexemes).map (·.part) = rules.partsFrom r.mode lexemes := by
  induction lexemes generalizing r with
  | nil =>
    cases mode : r.mode with
    | code => simp [fates, partsFrom, parts]
    | comment => simp [fates, partsFrom, within, commentLength, parts]
    | string quote escaped => cases escaped <;> simp [fates, partsFrom, within, literalLength, parts]
  | cons lexeme rest ih =>
    obtain ⟨here, later⟩ := List.forall_mem_cons.1 nonempty
    rw [fates, List.map_cons, ih _ later]
    cases mode : r.mode with
    | code => rw [partsFrom_code separate mode here]
    | comment => rw [partsFrom_comment separate mode]
    | string quote escaped =>
      rw [partsFrom_string quote escaped mode]
      simp [fateAt, mode]

variable {before : List Fate} {fate : Fate}

theorem openBrackets_append (before : List Fate) (fate : Fate) :
    rules.openBrackets (before ++ [fate]) = rules.nextDepth (rules.openBrackets before) fate := by
  simp [openBrackets]

theorem kept_before {earlier later : List Fate} {other : Fate} (dropped : fate.kept = false)
    (split : before ++ [fate] = earlier ++ other :: later) (kept : other.kept = true) :
    ∃ between, later = between ++ [fate] ∧ before = earlier ++ other :: between := by
  rcases List.eq_nil_or_concat later with rfl | ⟨between, last, rfl⟩
  · obtain ⟨-, same⟩ := List.append_inj' split rfl
    cases same
    rw [dropped] at kept
    cases kept
  · rw [List.concat_eq_append, ← List.cons_append, ← List.append_assoc] at split
    obtain ⟨same, last_⟩ := List.append_inj' split rfl
    cases last_
    exact ⟨between, List.concat_eq_append, same⟩

theorem Fresh.append (fresh : rules.Fresh before) (dropped : fate.kept = false) :
    rules.Fresh (before ++ [fate]) := by
  intro earlier other later split kept
  obtain ⟨between, rfl, rfl⟩ := kept_before dropped split kept
  obtain ⟨first, newline, rest, rfl, ends⟩ := fresh earlier other between rfl kept
  exact ⟨first, newline, rest ++ [fate], by simp, ends⟩

theorem EndsLine.fresh (ends : rules.EndsLine before fate) (dropped : fate.kept = false) :
    rules.Fresh (before ++ [fate]) := by
  intro earlier other later split kept
  obtain ⟨between, rfl, rfl⟩ := kept_before dropped split kept
  exact ⟨between, fate, [], rfl, ends⟩

/-- The reading behind these lexemes counts the open brackets, and has something
on its line unless nothing of them is on it. -/
structure Tracks (rules : Indentation) (before : List Fate) (r : Reading) : Prop where
  depth : r.depth = rules.openBrackets before
  fresh : r.kept = [] → rules.Fresh before

theorem advance_depth (r : Reading) (lexeme : Lexeme) :
    (rules.advance r lexeme).2.depth = rules.nextDepth r.depth (rules.fateAt r lexeme) := by
  have next : (rules.advance r lexeme).2.depth = (r.position.next rules lexeme.text).depth :=
    congrArg Position.depth (position_advance rules r lexeme)
  rw [next]
  simp only [Reading.position, Position.next, nextDepth, fateAt_lexeme]
  cases mode : r.mode with
  | string quote escaped =>
    have literal : Part.literal ≠ .code ∨ isSpace lexeme.text = true := Or.inl (by decide)
    simp only [fateAt, mode]
    rw [if_pos literal]
    repeat' split
    all_goals rfl
  | comment =>
    simp only [fateAt, mode]
    by_cases newline : lexeme.text = "\n"
    · simp [newline, isSpace]
    · simp [newline]
  | code =>
    simp only [fateAt, mode]
    by_cases space : isSpace lexeme.text = true
    · have plain : lexeme.text = "\n" ∨ lexeme.text = "\r" ∨ isBlank lexeme.text = true := by
        simpa [isSpace, or_assoc] using space
      rw [if_pos plain, if_pos (Or.inr space)]
    · have other : ¬(lexeme.text = "\n" ∨ lexeme.text = "\r" ∨ isBlank lexeme.text = true) := by
        simpa [isSpace, or_assoc] using space
      have visible : ¬(lexeme.text = "\n" ∨ lexeme.text = "\r") ∧ ¬isBlank lexeme.text = true := by tauto
      rw [if_neg other, Position.afterCode, if_neg visible.1, if_neg visible.2]
      by_cases comment : rules.comment ≠ "" ∧ lexeme.text = rules.comment
      · simp [if_pos comment]
      · rw [if_neg comment, if_neg comment]
        cases rules.quotes.contains lexeme.text with
        | true =>
          simp only [if_true]
          split <;> simp
        | false =>
          simp only [Bool.false_eq_true, if_false, ne_eq, not_true_eq_false, false_or, if_neg space]
          split
          · rfl
          · split
            · rfl
            · rfl

theorem advance_empty {r : Reading} (tracks : rules.Tracks before r) {lexeme : Lexeme}
    (empty : (rules.advance r lexeme).2.kept = []) :
    (rules.fateAt r lexeme).kept = false ∧ (r.kept = [] ∨ rules.EndsLine before (rules.fateAt r lexeme)) := by
  have ended {mode : Mode} (reading : r.mode = mode) (outside : ∀ quote escaped, mode ≠ .string quote escaped)
      (newline : lexeme.text = "\n") (flat : ¬0 < r.depth) :
      (rules.fateAt r lexeme).kept = false ∧ (r.kept = [] ∨ rules.EndsLine before (rules.fateAt r lexeme)) := by
    have closed : rules.openBrackets before = 0 := by
      rw [← tracks.depth]
      omega
    have fate : rules.fateAt r lexeme = ⟨lexeme, .code, false⟩ := by
      cases mode with
      | string quote escaped => exact absurd rfl (outside quote escaped)
      | comment => simp [fateAt, reading, newline]
      | code => simp [fateAt, reading, newline]
    rw [fate]
    exact ⟨rfl, Or.inr ⟨rfl, newline, closed⟩⟩
  have kept := advance_kept rules r lexeme
  unfold advance at empty kept
  cases mode : r.mode with
  | string quote escaped =>
    rw [mode] at empty
    cases empty
  | comment =>
    simp only [mode] at empty kept
    by_cases newline : lexeme.text = "\n"
    · by_cases bracket : 0 < r.depth
      · rw [if_neg (not_not.mpr newline), if_pos bracket] at empty
        refine ⟨?_, Or.inl empty⟩
        simp [fateAt, mode, newline]
      · exact ended mode nofun newline bracket
    · rw [if_pos newline] at empty
      refine ⟨?_, Or.inl empty⟩
      simp [fateAt, mode, newline]
  | code =>
    simp only [mode] at empty kept
    by_cases newline : lexeme.text = "\n"
    · by_cases bracket : 0 < r.depth
      · rw [if_neg (not_not.mpr newline), if_pos bracket] at empty
        refine ⟨?_, Or.inl empty⟩
        simp [fateAt, mode, newline]
      · exact ended mode nofun newline bracket
    · rw [if_pos newline] at empty
      rw [if_pos newline, empty] at kept
      have nothing : r.kept.reverse = [] ∧ (if (rules.fateAt r lexeme).kept then [lexeme] else []) = [] :=
        List.append_eq_nil_iff.1 kept.symm
      refine ⟨?_, Or.inl (List.reverse_eq_nil_iff.1 nothing.1)⟩
      cases fate : (rules.fateAt r lexeme).kept with
      | false => rfl
      | true => simp [fate] at nothing

theorem Tracks.advance {r : Reading} (tracks : rules.Tracks before r) (lexeme : Lexeme) :
    rules.Tracks (before ++ [rules.fateAt r lexeme]) (rules.advance r lexeme).2 where
  depth := by rw [advance_depth, openBrackets_append, tracks.depth]
  fresh empty := by
    obtain ⟨dropped, empty | ends⟩ := advance_empty tracks empty
    · exact (tracks.fresh empty).append dropped
    · exact ends.fresh dropped

theorem fateAt_mayGo {r : Reading} (tracks : rules.Tracks before r) {lexeme : Lexeme}
    (dropped : (rules.fateAt r lexeme).kept = false) : rules.MayGo before (rules.fateAt r lexeme) := by
  unfold fateAt at dropped ⊢
  cases mode : r.mode with
  | string quote escaped =>
    rw [mode] at dropped
    cases dropped
  | comment =>
    dsimp only
    split
    next newline => exact Or.inr ⟨rfl, Or.inl newline⟩
    next => exact Or.inl rfl
  | code =>
    simp only [mode] at dropped
    dsimp only
    by_cases line : lexeme.text = "\n" ∨ lexeme.text = "\r"
    · rw [if_pos line]
      exact Or.inr ⟨rfl, line.imp_right Or.inl⟩
    rw [if_neg line] at dropped ⊢
    by_cases blank : isBlank lexeme.text = true
    · rw [if_pos blank] at dropped ⊢
      have empty : r.kept = [] := by simpa using dropped
      exact Or.inr ⟨rfl, Or.inr (Or.inr ⟨blank, tracks.fresh empty⟩)⟩
    rw [if_neg blank] at dropped ⊢
    by_cases comment : rules.comment ≠ "" ∧ lexeme.text = rules.comment
    · rw [if_pos comment]
      exact Or.inl rfl
    · rw [if_neg comment] at dropped
      cases dropped

theorem fates_mayGo {r : Reading} (tracks : rules.Tracks before r) (lexemes : List Lexeme)
    {earlier later : List Fate} (split : rules.fates r lexemes = earlier ++ fate :: later)
    (dropped : fate.kept = false) : rules.MayGo (before ++ earlier) fate := by
  induction lexemes generalizing r before earlier with
  | nil => exact absurd split.symm (by simp [fates])
  | cons lexeme rest ih =>
    rw [fates] at split
    cases earlier with
    | nil =>
      cases split
      rw [List.append_nil]
      exact fateAt_mayGo tracks dropped
    | cons first earlier =>
      obtain ⟨rfl, later_⟩ := List.cons.inj split
      have further := ih (tracks.advance lexeme) later_
      rwa [List.append_assoc] at further

variable {aliases : Aliases}

theorem mark_source {lines : List LogicalLine} {blocks outer : List Nat} {marked : List Lexeme}
    (done : rules.mark aliases blocks lines = .ok (marked, outer))
    (real : ∀ l ∈ lines.flatMap LogicalLine.lexemes, l.synthetic = false) :
    marked.filter (!·.synthetic) = lines.flatMap LogicalLine.lexemes := by
  induction lines generalizing blocks marked with
  | nil =>
    cases done
    rfl
  | cons line lines ih =>
    obtain ⟨marks, inner, after, entered, later, rfl⟩ := mark_cons done
    rw [List.flatMap_cons, List.forall_mem_append] at real
    have noMarks : marks.filter (!·.synthetic) = [] := by
      rw [List.filter_eq_nil_iff]
      intro mark member
      obtain ⟨text, -, rfl⟩ := enter_marked entered mark member
      simp [Lexeme.marker]
    have own : line.lexemes.filter (!·.synthetic) = line.lexemes :=
      List.filter_eq_self.2 fun l member => by simp [real.1 l member]
    rw [List.filter_append, List.filter_append, noMarks, own, List.filter_cons]
    simp [Lexeme.marker, ih later real.2]

theorem apply_source {lexemes output : List Lexeme} (applied : rules.apply aliases lexemes = .ok output)
    (real : ∀ l ∈ lexemes, l.synthetic = false) :
    output.filter (!·.synthetic) = (rules.lines lexemes).flatMap LogicalLine.lexemes := by
  obtain ⟨marked, blocks, done, rfl⟩ := apply_parts applied
  have source := mark_source done fun l member => real l (mem_lines member)
  simp [source, Lexeme.marker]

/-- The stream has in it the lexemes of the input, each as it is and in their
order, except for such as may be missing. -/
theorem apply_retains (separate : rules.Separate) {lexemes output : List Lexeme}
    (real : ∀ l ∈ lexemes, l.synthetic = false ∧ l.text ≠ "")
    (applied : rules.apply aliases lexemes = .ok output) :
    ∃ fates : List Fate, fates.map (·.lexeme) = lexemes ∧ fates.map (·.part) = rules.parts lexemes ∧
      output.filter (!·.synthetic) = (fates.filter (·.kept)).map (·.lexeme) ∧
      ∀ before fate after, fates = before ++ fate :: after → fate.kept = false → rules.MayGo before fate := by
  refine ⟨rules.fates {} lexemes, fates_lexemes {} lexemes, ?_, ?_, ?_⟩
  · exact fates_parts separate {} fun l member => (real l member).2
  · rw [apply_source applied fun l member => (real l member).1, Indentation.lines, linesFrom_fates]
    rfl
  · intro before fate after split dropped
    have start : rules.Tracks [] {} := ⟨rfl, fun _ _ _ _ nothing => absurd nothing (by simp)⟩
    have may := fates_mayGo start lexemes split dropped
    rwa [List.nil_append] at may

theorem apply_retains_name :
    let rules : Indentation := { width := 4, comment := "#", quotes := ["\""], escape := "\\" }
    let lexemes := [Lexeme.source "#", .source "\"", .source "\n", .source "\x0c", .source "x"]
    ∃ output, rules.apply {} lexemes = .ok output ∧ output.filter (!·.synthetic) = [.source "x"] ∧
      ∃ fates : List Fate, fates.map (·.lexeme) = lexemes ∧
        ∀ before fate after, fates = before ++ fate :: after → fate.kept = false → rules.MayGo before fate := by
  intro rules lexemes
  have separate : rules.Separate := ⟨by decide, by decide⟩
  have real : ∀ l ∈ lexemes, l.synthetic = false ∧ l.text ≠ "" := by decide
  have applied : rules.apply {} lexemes = .ok _ := rfl
  obtain ⟨fates, same, -, -, missing⟩ := apply_retains separate real applied
  exact ⟨_, rfl, rfl, fates, same, missing⟩

end Indentation

end ScriptKernel.Layout
