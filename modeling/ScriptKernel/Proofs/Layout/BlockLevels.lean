import ScriptKernel.Proofs.Layout.LogicalLines

/-!
Block levels. With a positive width the open blocks are always the multiples
of the width up to the level of the last line, so what the stack of blocks
decides is plain division: a line is accepted when its spaces are a multiple
of the width, and its level is the quotient.
-/

namespace ScriptKernel

namespace Aliases

def markers (aliases : Aliases) : List String :=
  [aliases.newline, aliases.indent, aliases.dedent, aliases.endOfInput]

def change (aliases : Aliases) (place : Place) (before after : Nat) : List Lexeme :=
  List.replicate (after - before) (Lexeme.marker aliases.indent place) ++
    List.replicate (before - after) (Lexeme.marker aliases.dedent place)

/-- The level behind a stream that starts at a level, unless it closes more
blocks than are open. -/
def levelAfter (aliases : Aliases) (level : Nat) : List Lexeme → Option Nat
  | [] => some level
  | lexeme :: rest =>
    if lexeme.synthetic && lexeme.text == aliases.indent then aliases.levelAfter (level + 1) rest
    else if lexeme.synthetic && lexeme.text == aliases.dedent then
      match level with
      | 0 => none
      | outer + 1 => aliases.levelAfter outer rest
    else aliases.levelAfter level rest

theorem levelAfter_append (aliases : Aliases) (level : Nat) (first second : List Lexeme) :
    aliases.levelAfter level (first ++ second) =
      (aliases.levelAfter level first).bind fun reached => aliases.levelAfter reached second := by
  induction first generalizing level with
  | nil => rfl
  | cons lexeme rest ih =>
    simp only [List.cons_append, levelAfter]
    split
    · exact ih (level + 1)
    · split
      · cases level with
        | zero => rfl
        | succ outer => exact ih outer
      · exact ih level

theorem levelAfter_source (aliases : Aliases) (level : Nat) (lexemes : List Lexeme)
    (source : ∀ lexeme ∈ lexemes, lexeme.synthetic = false) :
    aliases.levelAfter level lexemes = some level := by
  induction lexemes with
  | nil => rfl
  | cons lexeme rest ih =>
    have later := ih fun other member => source other (List.mem_cons_of_mem _ member)
    simp [levelAfter, source lexeme (by simp), later]

theorem levelAfter_indents (aliases : Aliases) (level count : Nat) (place : Place) :
    aliases.levelAfter level (List.replicate count (Lexeme.marker aliases.indent place)) =
      some (level + count) := by
  induction count generalizing level with
  | zero => rfl
  | succ count ih =>
    simp only [List.replicate_succ, levelAfter, Lexeme.marker, Bool.true_and, beq_self_eq_true,
      if_true]
    have rest := ih (level + 1)
    simp only [Lexeme.marker] at rest
    rw [rest]
    congr 1
    omega

theorem levelAfter_dedents (aliases : Aliases) (distinct : aliases.indent ≠ aliases.dedent)
    (level count : Nat) (place : Place) :
    aliases.levelAfter (level + count) (List.replicate count (Lexeme.marker aliases.dedent place)) =
      some level := by
  induction count with
  | zero => rfl
  | succ count ih =>
    simp only [Lexeme.marker] at ih
    simp [List.replicate_succ, levelAfter, Lexeme.marker, distinct.symm, ← Nat.add_assoc, ih]

theorem levelAfter_change (aliases : Aliases) (distinct : aliases.indent ≠ aliases.dedent)
    (place : Place) (before after : Nat) :
    aliases.levelAfter before (aliases.change place before after) = some after := by
  rw [change, levelAfter_append, levelAfter_indents, Option.bind_some]
  have split : before + (after - before) = after + (before - after) := by omega
  rw [split, levelAfter_dedents aliases distinct]

theorem levelAfter_other (aliases : Aliases) (level : Nat) (text : String) (place : Place)
    (notIndent : text ≠ aliases.indent) (notDedent : text ≠ aliases.dedent) :
    aliases.levelAfter level [Lexeme.marker text place] = some level := by
  simp [levelAfter, Lexeme.marker, notIndent, notDedent]

end Aliases

namespace Layout

def LogicalLine.finish (line : LogicalLine) : Place :=
  ((line.others.getLast?).getD line.first).endPlace

/-- The lines with their markers, by division: before each line the change
from the level so far to its own, behind it a line end, and at the end the
changes back to level zero. -/
def leveled (aliases : Aliases) (width : Nat) (finish : Place) :
    Nat → List LogicalLine → List Lexeme
  | level, [] =>
    List.replicate level (Lexeme.marker aliases.dedent finish) ++
      [Lexeme.marker aliases.endOfInput finish]
  | level, line :: rest =>
    aliases.change line.first.place level (line.spaces / width) ++ line.lexemes ++
      Lexeme.marker aliases.newline line.finish ::
        leveled aliases width finish (line.spaces / width) rest

namespace Indentation

theorem length_opened (width level : Nat) : (opened width [] level).length = level := by
  induction level with
  | zero => rfl
  | succ level ih => simp [opened, ih]

theorem innermost_opened (width level : Nat) : innermost (opened width [] level) = level * width := by
  induction level with
  | zero => simp [opened, innermost]
  | succ level ih =>
    rw [opened, ih]
    simp [innermost, Nat.succ_mul]

theorem opened_opened (width level count : Nat) :
    opened width (opened width [] level) count = opened width [] (level + count) := by
  induction count with
  | zero => rfl
  | succ count ih => rw [opened, ih, ← Nat.add_assoc, opened]

theorem close_opened (width : Nat) (positive : 0 < width) (level spaces : Nat) :
    close spaces (opened width [] level) = opened width [] (min level (spaces / width)) := by
  induction level with
  | zero => simp [opened, close]
  | succ level ih =>
    rw [opened, innermost_opened, close]
    have inner : level * width + width = (level + 1) * width := (Nat.succ_mul level width).symm
    by_cases deeper : spaces < level * width + width
    · have bound : spaces / width < level + 1 := by
        rw [Nat.div_lt_iff_lt_mul positive, ← inner]
        exact deeper
      rw [if_pos deeper, ih]
      congr 1
      omega
    · have bound : level + 1 ≤ spaces / width := by
        rw [Nat.le_div_iff_mul_le positive, ← inner]
        omega
      rw [if_neg deeper, Nat.min_eq_left bound, opened, innermost_opened]

def Accepts (rules : Indentation) (line : LogicalLine) : Prop :=
  line.tab = none ∧ rules.width ∣ line.spaces

theorem enter_opened (rules : Indentation) (aliases : Aliases) (positive : 0 < rules.width)
    (level : Nat) (line : LogicalLine) (accepted : rules.Accepts line) :
    rules.enter aliases (opened rules.width [] level) line =
      .ok (aliases.change line.first.place level (line.spaces / rules.width),
        opened rules.width [] (line.spaces / rules.width)) := by
  obtain ⟨noTab, factor, whole⟩ := accepted
  have quotient : line.spaces / rules.width = factor := by
    rw [whole, Nat.mul_div_cancel_left _ positive]
  rw [enter, if_neg positive.ne', noTab, quotient]
  simp only [innermost_opened]
  by_cases deeper : level * rules.width < line.spaces
  · have above : level < factor := by
      rw [whole, Nat.mul_comm] at deeper
      exact Nat.lt_of_mul_lt_mul_left deeper
    have distance : line.spaces - level * rules.width = (factor - level) * rules.width := by
      rw [whole, Nat.sub_mul, Nat.mul_comm factor]
    rw [if_pos deeper, distance, if_neg (by simp), Nat.mul_div_cancel _ positive, opened_opened]
    simp [Aliases.change, Nat.add_sub_cancel' above.le, Nat.sub_eq_zero_of_le above.le]
  · have below : factor ≤ level := by
      rw [whole, Nat.mul_comm] at deeper
      exact Nat.le_of_mul_le_mul_left (Nat.not_lt.1 deeper) positive
    rw [if_neg deeper, close_opened _ positive, quotient, Nat.min_eq_right below,
      innermost_opened, if_neg (by simp [whole, Nat.mul_comm])]
    simp [Aliases.change, length_opened, Nat.sub_eq_zero_of_le below]

theorem enter_accepts (rules : Indentation) (aliases : Aliases) (positive : 0 < rules.width)
    (level : Nat) (line : LogicalLine) (result : List Lexeme × List Nat)
    (entered : rules.enter aliases (opened rules.width [] level) line = .ok result) :
    rules.Accepts line := by
  rw [enter, if_neg positive.ne'] at entered
  cases tab : line.tab with
  | some place => simp [tab] at entered
  | none =>
    refine ⟨tab, ?_⟩
    simp only [tab, innermost_opened] at entered
    by_cases deeper : level * rules.width < line.spaces
    · rw [if_pos deeper] at entered
      by_cases whole : (line.spaces - level * rules.width) % rules.width = 0
      · have divides := (Nat.dvd_add_right (Nat.dvd_mul_left rules.width level)).2
          (Nat.dvd_of_mod_eq_zero whole)
        rwa [Nat.add_sub_cancel' deeper.le] at divides
      · simp [whole] at entered
    · rw [if_neg deeper, close_opened _ positive, innermost_opened] at entered
      by_cases same : min level (line.spaces / rules.width) * rules.width = line.spaces
      · exact ⟨_, by rw [Nat.mul_comm, same]⟩
      · simp [same] at entered

/-- From a stack of multiples the layout gives the levels by division, and
fails exactly when some line is not accepted. -/
theorem mark_opened (rules : Indentation) (aliases : Aliases) (positive : 0 < rules.width)
    (finish : Place) (lines : List LogicalLine) (level : Nat)
    (accepted : ∀ line ∈ lines, rules.Accepts line) :
    ∃ marked reached,
      rules.mark aliases (opened rules.width [] level) lines =
        .ok (marked, opened rules.width [] reached) ∧
      marked ++ List.replicate reached (Lexeme.marker aliases.dedent finish) ++
          [Lexeme.marker aliases.endOfInput finish] =
        leveled aliases rules.width finish level lines := by
  induction lines generalizing level with
  | nil => exact ⟨[], level, rfl, rfl⟩
  | cons line rest ih =>
    have here := enter_opened rules aliases positive level line (accepted line (by simp))
    obtain ⟨marked, reached, later, output⟩ := ih (line.spaces / rules.width)
      fun other member => accepted other (List.mem_cons_of_mem _ member)
    refine ⟨aliases.change line.first.place level (line.spaces / rules.width) ++ line.lexemes ++
      Lexeme.marker aliases.newline line.finish :: marked, reached, ?_, ?_⟩
    · rw [mark, here]
      simp only [bind, Except.bind, later]
      rfl
    · rw [leveled, ← output]
      simp

theorem mark_accepts (rules : Indentation) (aliases : Aliases) (positive : 0 < rules.width)
    (lines : List LogicalLine) (level : Nat) (result : List Lexeme × List Nat)
    (marked : rules.mark aliases (opened rules.width [] level) lines = .ok result) :
    ∀ line ∈ lines, rules.Accepts line := by
  induction lines generalizing level result with
  | nil => simp
  | cons line rest ih =>
    cases entered : rules.enter aliases (opened rules.width [] level) line with
    | error fault => simp [mark, entered, bind, Except.bind] at marked
    | ok step =>
      have accepted := enter_accepts rules aliases positive level line step entered
      rw [enter_opened rules aliases positive level line accepted] at entered
      rw [mark, enter_opened rules aliases positive level line accepted] at marked
      simp only [bind, Except.bind] at marked
      cases later : rules.mark aliases (opened rules.width [] (line.spaces / rules.width)) rest with
      | error fault => simp [later] at marked
      | ok tail =>
        intro other member
        rcases List.mem_cons.1 member with same | further
        · exact same ▸ accepted
        · exact ih _ tail later other further

theorem levelAfter_leveled (aliases : Aliases) (distinct : aliases.markers.Nodup) (width : Nat)
    (finish : Place) (lines : List LogicalLine) (level : Nat)
    (source : ∀ line ∈ lines, ∀ lexeme ∈ line.lexemes, lexeme.synthetic = false) :
    aliases.levelAfter level (leveled aliases width finish level lines) = some 0 := by
  simp only [Aliases.markers, List.nodup_cons, List.mem_cons, List.not_mem_nil, or_false,
    not_or] at distinct
  obtain ⟨⟨newlineIndent, newlineDedent, -⟩, ⟨indentDedent, indentEnd⟩, dedentEnd, -⟩ := distinct
  induction lines generalizing level with
  | nil =>
    have closing := aliases.levelAfter_dedents indentDedent 0 level finish
    rw [Nat.zero_add] at closing
    rw [leveled, Aliases.levelAfter_append, closing, Option.bind_some,
      Aliases.levelAfter_other _ _ _ _ (Ne.symm indentEnd) (Ne.symm dedentEnd)]
  | cons line rest ih =>
    have lineSource := source line (by simp)
    have later := ih (line.spaces / width)
      fun other member => source other (List.mem_cons_of_mem _ member)
    have newline := aliases.levelAfter_other (line.spaces / width) aliases.newline line.finish
      newlineIndent newlineDedent
    rw [leveled, List.append_cons, Aliases.levelAfter_append, Aliases.levelAfter_append,
      Aliases.levelAfter_append, Aliases.levelAfter_change _ indentDedent, Option.bind_some,
      Aliases.levelAfter_source _ _ _ lineSource, Option.bind_some, newline, Option.bind_some, later]

theorem apply_accepted (rules : Indentation) (aliases : Aliases) (lexemes : List Lexeme)
    (positive : 0 < rules.width) (accepted : ∀ line ∈ rules.lines lexemes, rules.Accepts line) :
    rules.apply aliases lexemes =
      .ok (leveled aliases rules.width (Lexeme.endOf lexemes) 0 (rules.lines lexemes)) := by
  obtain ⟨marked, reached, result, output⟩ := mark_opened rules aliases positive
    (Lexeme.endOf lexemes) (rules.lines lexemes) 0 accepted
  rw [apply, ← output]
  rw [opened] at result
  simp only [result, bind, Except.bind, length_opened]

/-- The layout succeeds exactly when no logical line has a tab before it and
the width divides the spaces before every one; the output then is what division
gives, and its markers are balanced. -/
theorem apply_block_levels (rules : Indentation) (aliases : Aliases) (lexemes : List Lexeme)
    (positive : 0 < rules.width) (distinct : aliases.markers.Nodup)
    (source : ∀ lexeme ∈ lexemes, lexeme.synthetic = false) :
    ((∃ output, rules.apply aliases lexemes = .ok output) ↔
      ∀ line ∈ rules.logicalLines lexemes, line.tab = none ∧ rules.width ∣ line.spaces) ∧
    ∀ output, rules.apply aliases lexemes = .ok output →
      output = leveled aliases rules.width (Lexeme.endOf lexemes) 0 (rules.logicalLines lexemes) ∧
      aliases.levelAfter 0 output = some 0 := by
  have succeeds (accepted : ∀ line ∈ rules.logicalLines lexemes, rules.Accepts line) :
      rules.apply aliases lexemes =
        .ok (leveled aliases rules.width (Lexeme.endOf lexemes) 0 (rules.logicalLines lexemes)) := by
    rw [← lines_eq_logicalLines] at accepted ⊢
    exact apply_accepted rules aliases lexemes positive accepted
  have accepts (output : List Lexeme) (applied : rules.apply aliases lexemes = .ok output) :
      ∀ line ∈ rules.logicalLines lexemes, rules.Accepts line := by
    rw [apply, lines_eq_logicalLines] at applied
    cases marked : rules.mark aliases [] (rules.logicalLines lexemes) with
    | error fault => simp [marked, bind, Except.bind] at applied
    | ok result => exact mark_accepts rules aliases positive _ 0 result marked
  refine ⟨⟨fun ⟨output, applied⟩ => accepts output applied,
    fun accepted => ⟨_, succeeds accepted⟩⟩, ?_⟩
  intro output applied
  have same := succeeds (accepts output applied)
  rw [applied, Except.ok.injEq] at same
  refine ⟨same, ?_⟩
  rw [same]
  apply levelAfter_leveled aliases distinct
  intro line member lexeme inLine
  exact source lexeme (mem_of_mem_logicalLines rules lexemes line member lexeme inLine)

theorem apply_block_levels_closed_block :
    ∃ output,
      ({ width := 2, comment := "#", quotes := ["'"] } : Indentation).apply {}
        (["'", "\n", "'", "\n", " ", " ", "a", "#", "'", "\n", "b"].map
          fun text => ⟨text, Place.start, 0, false⟩) = .ok output ∧
      Aliases.levelAfter {} 0 output = some 0 := by
  have levels := apply_block_levels { width := 2, comment := "#", quotes := ["'"] } {}
    (["'", "\n", "'", "\n", " ", " ", "a", "#", "'", "\n", "b"].map
      fun text => ⟨text, Place.start, 0, false⟩) (by decide) (by decide) (by simp)
  obtain ⟨output, applied⟩ := levels.1.2 (by decide)
  exact ⟨output, applied, (levels.2 output applied).2⟩

end Indentation

end Layout

end ScriptKernel
