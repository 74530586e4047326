import ScriptKernel.Proofs.Layout.LogicalLines
import ScriptKernel.Proofs.Layout.Marks
import ScriptKernel.Proofs.Parse.Reads

/-!
The reader of the layout one lexeme at a time, and what it makes of lexemes
regardless of where they stand. Of two inputs with the same lines but for the
places both give a stream or neither does, and the streams differ in places
alone. What the reader keeps from the start of a source on is the front of the
first logical line, which is not indented, so that the stream starts with it: a
line that has something keeps it, whatever comes behind.
-/

namespace ScriptKernel.Layout

variable {aliases : Aliases}

def Reading.position (r : Reading) : Indentation.Position :=
  ⟨r.mode, r.depth⟩

namespace Indentation

variable (rules : Indentation)

/-- The lines that a lexeme ends, and what is read behind it. -/
def advance (r : Reading) (lexeme : Lexeme) : List LogicalLine × Reading :=
  match r.mode with
  | .string quote escaped => ([], rules.keepInString r quote escaped lexeme)
  | .comment =>
    if lexeme.text ≠ "\n" then ([], r)
    else if 0 < r.depth then ([], { r with mode := .code })
    else (r.finish.toList, {})
  | .code =>
    if lexeme.text ≠ "\n" then ([], rules.keepInCode r lexeme)
    else if 0 < r.depth then ([], r)
    else (r.finish.toList, {})

/-- The lines that end among the lexemes, and what is read behind them. -/
def read (r : Reading) : List Lexeme → List LogicalLine × Reading
  | [] => ([], r)
  | lexeme :: rest =>
    let step := rules.advance r lexeme
    let later := read step.2 rest
    (step.1 ++ later.1, later.2)

theorem linesFrom_cons (r : Reading) (lexeme : Lexeme) (rest : List Lexeme) :
    rules.linesFrom r (lexeme :: rest) =
      (rules.advance r lexeme).1 ++ rules.linesFrom (rules.advance r lexeme).2 rest := by
  rw [linesFrom, advance]
  cases r.mode with
  | string quote escaped => rfl
  | comment =>
    dsimp only
    split
    · rfl
    · split
      · rfl
      · rfl
  | code =>
    dsimp only
    split
    · rfl
    · split
      · rfl
      · rfl

theorem linesFrom_append (r : Reading) (first second : List Lexeme) :
    rules.linesFrom r (first ++ second) = (rules.read r first).1 ++ rules.linesFrom (rules.read r first).2 second := by
  induction first generalizing r with
  | nil => rfl
  | cons lexeme first ih => rw [List.cons_append, linesFrom_cons, ih, read, List.append_assoc]

def Position.through (p : Position) (texts : List String) : Position :=
  texts.foldl (Position.next rules) p

theorem position_keepInString (r : Reading) {quote : String} {escaped : Bool}
    (inside : r.mode = .string quote escaped) (lexeme : Lexeme) :
    (rules.keepInString r quote escaped lexeme).position = r.position.next rules lexeme.text := by
  simp only [Reading.position, keepInString, Position.next, inside]
  cases escaped with
  | true => rfl
  | false =>
    simp only [Bool.false_eq_true, if_false]
    split
    · rfl
    · split
      · rfl
      · rfl

theorem position_keepInCode (r : Reading) (code : r.mode = .code) {lexeme : Lexeme} (other : lexeme.text ≠ "\n") :
    (rules.keepInCode r lexeme).position = r.position.next rules lexeme.text := by
  obtain ⟨spaces, tab, kept, depth, mode⟩ := r
  subst code
  simp only [keepInCode, Reading.position, Position.next, other, false_or]
  by_cases returns : lexeme.text = "\r"
  · simp [returns]
  by_cases blank : isBlank lexeme.text = true
  · by_cases empty : kept.isEmpty = true
    · simp [returns, blank, empty]
    · simp [returns, blank, empty]
  rw [if_neg returns, if_neg blank, if_neg (not_or.mpr ⟨returns, blank⟩), Position.afterCode, keep]
  split
  · rfl
  · split
    · split
      · rfl
      · rfl
    · split
      · rfl
      · split
        · rfl
        · rfl

theorem position_advance (r : Reading) (lexeme : Lexeme) :
    (rules.advance r lexeme).2.position = r.position.next rules lexeme.text := by
  obtain ⟨spaces, tab, kept, depth, mode⟩ := r
  unfold advance
  cases mode with
  | string quote escaped => exact position_keepInString rules _ rfl lexeme
  | comment =>
    dsimp only
    by_cases newline : lexeme.text = "\n"
    · rw [if_neg (not_not.mpr newline)]
      by_cases bracket : 0 < depth
      · rw [if_pos bracket]
        simp [Reading.position, Position.next, newline]
      · rw [if_neg bracket]
        simp [Reading.position, Position.next, newline, Nat.eq_zero_of_not_pos bracket]
    · rw [if_pos newline]
      simp [Reading.position, Position.next, newline]
  | code =>
    dsimp only
    by_cases newline : lexeme.text = "\n"
    · rw [if_neg (not_not.mpr newline)]
      by_cases bracket : 0 < depth
      · rw [if_pos bracket]
        simp [Reading.position, Position.next, newline]
      · rw [if_neg bracket]
        simp [Reading.position, Position.next, newline, Nat.eq_zero_of_not_pos bracket]
    · rw [if_pos newline]
      exact position_keepInCode rules _ rfl newline

theorem position_read (r : Reading) (lexemes : List Lexeme) :
    (rules.read r lexemes).2.position = r.position.through rules (lexemes.map (·.text)) := by
  induction lexemes generalizing r with
  | nil => rfl
  | cons lexeme rest ih => rw [read, ih, position_advance]; rfl

theorem advance_newline {r : Reading} {newline : Lexeme} (text : newline.text = "\n") (outside : r.position.inString = false)
    (flat : r.depth = 0) : rules.advance r newline = (r.finish.toList, {}) := by
  have bracket : ¬0 < r.depth := Nat.not_lt.mpr (Nat.le_of_eq flat)
  unfold advance
  cases mode : r.mode with
  | string quote escaped => simp [Reading.position, Position.inString, mode] at outside
  | comment =>
    dsimp only
    rw [if_neg (not_not.mpr text), if_neg bracket]
  | code =>
    dsimp only
    rw [if_neg (not_not.mpr text), if_neg bracket]

end Indentation

def LogicalLine.bare (line : LogicalLine) : LogicalLine :=
  ⟨line.spaces, line.tab.map fun _ => Place.start, line.first.bare, line.others.map Lexeme.bare⟩

def Reading.bare (r : Reading) : Reading :=
  { r with tab := r.tab.map fun _ => Place.start, kept := r.kept.map Lexeme.bare }

theorem Reading.finish_bare (r : Reading) : r.bare.finish = r.finish.map LogicalLine.bare := by
  have reversed : r.bare.kept.reverse = r.kept.reverse.map Lexeme.bare := by
    rw [List.map_reverse]
    rfl
  unfold finish
  rw [reversed]
  cases r.kept.reverse with
  | nil => rfl
  | cons first others => rfl

namespace Indentation

variable (rules : Indentation)

theorem keep_bare (r : Reading) (lexeme : Lexeme) : rules.keep r.bare lexeme.bare = (rules.keep r lexeme).bare := by
  unfold keep
  rw [Lexeme.bare_text]
  by_cases quote : rules.quotes.contains lexeme.text = true
  · by_cases empty : lexeme.text = ""
    · rw [if_pos quote, if_pos quote, if_pos empty, if_pos empty]
      rfl
    · rw [if_pos quote, if_pos quote, if_neg empty, if_neg empty]
      rfl
  rw [if_neg quote, if_neg quote]
  by_cases opens : rules.opening.contains lexeme.text = true
  · rw [if_pos opens, if_pos opens]
    rfl
  rw [if_neg opens, if_neg opens]
  by_cases closes : rules.closing.contains lexeme.text = true
  · rw [if_pos closes, if_pos closes]
    rfl
  · rw [if_neg closes, if_neg closes]
    rfl

theorem keepInCode_bare (r : Reading) (lexeme : Lexeme) :
    rules.keepInCode r.bare lexeme.bare = (rules.keepInCode r lexeme).bare := by
  have empty : r.bare.kept.isEmpty = r.kept.isEmpty := List.isEmpty_map
  have first : (r.tab.map fun _ => Place.start).or (some lexeme.bare.place) =
      (r.tab.or (some lexeme.place)).map fun _ => Place.start := by
    cases r.tab with
    | none => rfl
    | some tab => rfl
  unfold keepInCode
  rw [Lexeme.bare_text, empty]
  by_cases returns : lexeme.text = "\r"
  · rw [if_pos returns, if_pos returns]
  rw [if_neg returns, if_neg returns]
  by_cases blank : isBlank lexeme.text = true
  · rw [if_pos blank, if_pos blank]
    by_cases leading : r.kept.isEmpty = true
    · rw [if_pos leading, if_pos leading]
      simp only [Reading.bare, first, apply_ite (Option.map _)]
    · rw [if_neg leading, if_neg leading]
      rfl
  rw [if_neg blank, if_neg blank]
  by_cases comment : rules.comment ≠ "" ∧ lexeme.text = rules.comment
  · rw [if_pos comment, if_pos comment]
    rfl
  · rw [if_neg comment, if_neg comment]
    exact rules.keep_bare r lexeme

theorem advance_bare (r : Reading) (lexeme : Lexeme) : rules.advance r.bare lexeme.bare =
    ((rules.advance r lexeme).1.map LogicalLine.bare, (rules.advance r lexeme).2.bare) := by
  have finished : r.bare.finish.toList = r.finish.toList.map LogicalLine.bare := by
    rw [Reading.finish_bare]
    cases r.finish with
    | none => rfl
    | some line => rfl
  have mode : r.bare.mode = r.mode := rfl
  have depth : r.bare.depth = r.depth := rfl
  unfold advance
  rw [mode, depth, Lexeme.bare_text, finished]
  cases r.mode with
  | string quote escaped => rfl
  | comment =>
    dsimp only
    split
    · rfl
    · split
      · rfl
      · rfl
  | code =>
    dsimp only
    split
    · rw [keepInCode_bare]
      rfl
    · split
      · rfl
      · rfl

theorem linesFrom_bare (r : Reading) (lexemes : List Lexeme) :
    rules.linesFrom r.bare (Rest.bare lexemes) = (rules.linesFrom r lexemes).map LogicalLine.bare := by
  induction lexemes generalizing r with
  | nil =>
    rw [Rest.bare_nil, linesFrom, linesFrom, Reading.finish_bare]
    cases r.finish with
    | none => rfl
    | some line => rfl
  | cons lexeme rest ih => rw [Rest.bare_cons, linesFrom_cons, linesFrom_cons, advance_bare, List.map_append, ih]

theorem lines_bare (lexemes : List Lexeme) :
    rules.lines (Rest.bare lexemes) = (rules.lines lexemes).map LogicalLine.bare :=
  rules.linesFrom_bare {} lexemes

variable {rules} {blocks inner outer : List Nat} {line line' : LogicalLine} {lines lines' : List LogicalLine}
  {marks marked lexemes lexemes' stream : List Lexeme}

theorem enter_bare (same : line'.bare = line.bare) (entered : rules.enter aliases blocks line = .ok (marks, inner)) :
    ∃ marks', rules.enter aliases blocks line' = .ok (marks', inner) ∧ Rest.bare marks' = Rest.bare marks := by
  obtain ⟨spaces, tab, first, others⟩ := line
  obtain ⟨spaces', tab', first', others'⟩ := line'
  simp only [LogicalLine.bare, LogicalLine.mk.injEq] at same
  obtain ⟨rfl, sameTab, -, -⟩ := same
  have repeated (count : Nat) (text : String) (place place' : Place) :
      Rest.bare (List.replicate count (Lexeme.marker text place')) =
        Rest.bare (List.replicate count (Lexeme.marker text place)) := by
    simp only [Rest.bare, List.map_replicate]
    rfl
  unfold enter at entered ⊢
  dsimp only at entered ⊢
  by_cases flat : rules.width = 0
  · rw [if_pos flat] at entered ⊢
    exact ⟨marks, entered, rfl⟩
  rw [if_neg flat] at entered ⊢
  cases tab with
  | some tab => cases entered
  | none =>
    have none : tab' = none := Option.map_eq_none_iff.mp sameTab
    subst none
    dsimp only at entered ⊢
    by_cases deeper : innermost blocks < spaces'
    · rw [if_pos deeper] at entered ⊢
      by_cases odd : (spaces' - innermost blocks) % rules.width ≠ 0
      · rw [if_pos odd] at entered
        cases entered
      · rw [if_neg odd] at entered ⊢
        cases entered
        exact ⟨_, rfl, repeated _ _ _ _⟩
    · rw [if_neg deeper] at entered ⊢
      by_cases unmatched : innermost (close spaces' blocks) ≠ spaces'
      · rw [if_pos unmatched] at entered
        cases entered
      · rw [if_neg unmatched] at entered ⊢
        cases entered
        exact ⟨_, rfl, repeated _ _ _ _⟩

theorem mark_bare (same : lines'.map LogicalLine.bare = lines.map LogicalLine.bare)
    (done : rules.mark aliases blocks lines = .ok (marked, outer)) :
    ∃ marked', rules.mark aliases blocks lines' = .ok (marked', outer) ∧ Rest.bare marked' = Rest.bare marked := by
  induction lines generalizing lines' blocks marked outer with
  | nil =>
    cases lines' with
    | nil => exact ⟨marked, done, rfl⟩
    | cons line' lines' => cases same
  | cons line lines ih =>
    cases lines' with
    | nil => cases same
    | cons line' lines' =>
      rw [List.map_cons, List.map_cons, List.cons.injEq] at same
      obtain ⟨marks, inner, after, entered, later, rfl⟩ := mark_cons done
      obtain ⟨marks', entered', sameMarks⟩ := enter_bare same.1 entered
      obtain ⟨after', later', sameAfter⟩ := ih same.2 later
      have sameLine : Rest.bare line'.lexemes = Rest.bare line.lexemes := by
        have parts := same.1
        simp only [LogicalLine.bare, LogicalLine.mk.injEq] at parts
        rw [LogicalLine.lexemes, LogicalLine.lexemes, Rest.bare_cons, Rest.bare_cons, parts.2.2.1]
        exact congrArg _ parts.2.2.2
      refine ⟨marks' ++ line'.lexemes ++
        Lexeme.marker aliases.newline ((line'.others.getLast?).getD line'.first).endPlace :: after', ?_, ?_⟩
      · rw [mark, entered']
        simp only [bind, Except.bind, later']
      · simp only [Rest.bare, List.map_append, List.map_cons] at sameMarks sameLine sameAfter ⊢
        rw [sameMarks, sameLine, sameAfter]
        rfl

theorem apply_bare (same : (rules.lines lexemes').map LogicalLine.bare = (rules.lines lexemes).map LogicalLine.bare)
    (applied : rules.apply aliases lexemes = .ok stream) :
    ∃ stream', rules.apply aliases lexemes' = .ok stream' ∧ Rest.bare stream' = Rest.bare stream := by
  obtain ⟨marked, blocks, done, rfl⟩ := apply_parts applied
  obtain ⟨marked', done', sameMarked⟩ := mark_bare same done
  refine ⟨marked' ++ List.replicate blocks.length (Lexeme.marker aliases.dedent (Lexeme.endOf lexemes')) ++
    [Lexeme.marker aliases.endOfInput (Lexeme.endOf lexemes')], ?_, ?_⟩
  · rw [apply, done']
    rfl
  · simp only [Rest.bare, List.map_append, List.map_replicate] at sameMarked ⊢
    rw [sameMarked]
    rfl

end Indentation

namespace Indentation

theorem advance_started (rules : Indentation) {r : Reading} (started : r.kept ≠ []) (l : Lexeme) :
    rules.advance r l = (r.finish.toList, {}) ∨
      ∃ r', rules.advance r l = ([], r') ∧ (r'.kept = r.kept ∨ r'.kept = l :: r.kept) ∧ r'.spaces = r.spaces ∧
        r'.tab = r.tab := by
  have same : ∃ r', (([], r) : List LogicalLine × Reading) = ([], r') ∧ (r'.kept = r.kept ∨ r'.kept = l :: r.kept) ∧
      r'.spaces = r.spaces ∧ r'.tab = r.tab := ⟨r, rfl, .inl rfl, rfl, rfl⟩
  have kept : (rules.keep r l).kept = l :: r.kept ∧ (rules.keep r l).spaces = r.spaces ∧ (rules.keep r l).tab = r.tab := by
    unfold keep
    dsimp only
    repeat' split
    all_goals exact ⟨rfl, rfl, rfl⟩
  unfold advance
  cases r.mode with
  | string quote escaped => exact .inr ⟨_, rfl, .inr rfl, rfl, rfl⟩
  | comment =>
    dsimp only
    split
    · exact .inr same
    · split
      · exact .inr ⟨_, rfl, .inl rfl, rfl, rfl⟩
      · exact .inl rfl
  | code =>
    dsimp only
    split
    · unfold keepInCode
      split
      · exact .inr same
      split
      · rw [if_neg (by simpa using started)]
        exact .inr ⟨_, rfl, .inr rfl, rfl, rfl⟩
      split
      · exact .inr ⟨_, rfl, .inl rfl, rfl, rfl⟩
      · exact .inr ⟨_, rfl, .inr kept.1, kept.2.1, kept.2.2⟩
    · split
      · exact .inr same
      · exact .inl rfl

theorem linesFrom_started (rules : Indentation) {r : Reading} (started : r.kept ≠ []) (rest : List Lexeme) :
    ∃ line lines extra, rules.linesFrom r rest = line :: lines ∧ line.lexemes = r.kept.reverse ++ extra ∧
      line.spaces = r.spaces ∧ line.tab = r.tab ∧ (rest = [] → extra = []) := by
  have finished (r : Reading) (started : r.kept ≠ []) : ∃ line, r.finish = some line ∧
      line.lexemes = r.kept.reverse ∧ line.spaces = r.spaces ∧ line.tab = r.tab := by
    obtain ⟨first, others, reversed⟩ := List.exists_cons_of_ne_nil (by simpa using started : r.kept.reverse ≠ [])
    exact ⟨_, by rw [Reading.finish, reversed], by rw [reversed]; rfl, rfl, rfl⟩
  induction rest generalizing r with
  | nil =>
    obtain ⟨line, done, kept, spaces, tab⟩ := finished r started
    exact ⟨line, [], [], by rw [linesFrom, done]; rfl, by rw [kept, List.append_nil], spaces, tab, fun _ => rfl⟩
  | cons l rest ih =>
    rw [linesFrom_cons]
    rcases rules.advance_started started l with ends | ⟨r', step, kept, spaces, tab⟩
    · obtain ⟨line, done, kept, spaces, tab⟩ := finished r started
      exact ⟨line, _, [], by rw [ends, done]; rfl, by rw [kept, List.append_nil], spaces, tab, fun _ => rfl⟩
    · have started' : r'.kept ≠ [] := by
        rcases kept with same | longer
        · rwa [same]
        · rw [longer]
          exact List.cons_ne_nil _ _
      obtain ⟨line, lines, extra, later, lexemes, spaces', tab', -⟩ := ih started'
      rw [step]
      rcases kept with same | longer
      · exact ⟨line, lines, extra, later, by rw [lexemes, same], spaces'.trans spaces, tab'.trans tab, by simp⟩
      · refine ⟨line, lines, l :: extra, later, ?_, spaces'.trans spaces, tab'.trans tab, by simp⟩
        rw [lexemes, longer]
        simp

/-- Lexemes at the start of a source that are all kept come first in the stream,
with a marker behind them when they are all. -/
theorem apply_front (rules : Indentation) {front rest stream : List Lexeme} {mode : Mode} (some : front ≠ [])
    (kept : rules.linesFrom {} (front ++ rest) = rules.linesFrom { kept := front.reverse, mode } rest)
    (applied : rules.apply aliases (front ++ rest) = .ok stream) :
    ∃ m more, stream = front ++ m :: more ∧ (rest = [] → m.synthetic = true) := by
  have started : ({ kept := front.reverse, mode } : Reading).kept ≠ [] := by simpa using some
  obtain ⟨line, lines, extra, split, lexemes, spaces, tab, ended⟩ := rules.linesFrom_started started rest
  obtain ⟨marked, blocks, done, rfl⟩ := apply_parts applied
  rw [Indentation.lines, kept, split] at done
  obtain ⟨marks, inner, after, entered, -, rfl⟩ := mark_cons done
  -- No block is open and the line has no spaces before it, so no marker comes first.
  have unmarked : rules.enter aliases [] line = .ok ([], []) := by
    unfold enter
    dsimp only
    rw [tab, spaces]
    split
    · rfl
    · rfl
  rw [unmarked] at entered
  cases entered
  rw [lexemes, List.reverse_reverse]
  simp only [List.nil_append, List.append_assoc, List.cons_append]
  cases extra with
  | nil => exact ⟨_, _, rfl, fun _ => rfl⟩
  | cons m extra =>
    refine ⟨m, _, rfl, fun none => ?_⟩
    cases ended none

end Indentation

end ScriptKernel.Layout
