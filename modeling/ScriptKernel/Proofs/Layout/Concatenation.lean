import ScriptKernel.Proofs.Layout.BlockLevels
import ScriptKernel.Proofs.Layout.Steps
import ScriptKernel.Proofs.Parse.Continued

/-!
Streams of inputs one behind the other. Where the first input ends with one of
its lines, and the second starts at the outermost level, the stream of both is
that of the first up to the end marker, and then that of the second.
-/

namespace ScriptKernel.Layout

variable {aliases : Aliases}

theorem bare_leveled (width : Nat) (finish finish' : Place) (level : Nat) {lines lines' : List LogicalLine}
    (same : lines.map LogicalLine.bare = lines'.map LogicalLine.bare) :
    Rest.bare (leveled aliases width finish level lines) = Rest.bare (leveled aliases width finish' level lines') := by
  induction lines generalizing level lines' with
  | nil =>
    obtain rfl := List.map_eq_nil_iff.1 same.symm
    rw [leveled, leveled, Rest.bare, Rest.bare, List.map_append, List.map_append, List.map_replicate,
      List.map_replicate]
    rfl
  | cons line lines ih =>
    obtain ⟨line', rest', rfl, here, behind⟩ := List.map_eq_cons_iff.1 same.symm
    have later := ih (line.spaces / width) behind.symm
    obtain ⟨spaces, tab, first, others⟩ := line
    obtain ⟨spaces', tab', first', others'⟩ := line'
    simp only [LogicalLine.bare, LogicalLine.mk.injEq] at here
    obtain ⟨rfl, -, first, others⟩ := here
    have change (place : Place) : List.map Lexeme.bare (Aliases.change aliases place level (spaces' / width)) =
        List.map Lexeme.bare (Aliases.change aliases Place.start level (spaces' / width)) := by
      simp only [Aliases.change, List.map_append, List.map_replicate]
      rfl
    simp only [Rest.bare] at later
    simp only [leveled, LogicalLine.lexemes, Rest.bare, List.map_append, List.map_cons, later, first, others, change]
    rfl

theorem leveled_append (width : Nat) (finish finish₁ finish₂ : Place) (level : Nat) (first : List LogicalLine)
    {second : List LogicalLine} (flat : ∀ line ∈ second.head?, line.spaces / width = 0) :
    ∃ front, Rest.bare (leveled aliases width finish₁ level first) = front ++ [Lexeme.sign aliases.endOfInput] ∧
      Rest.bare (leveled aliases width finish level (first ++ second)) =
        front ++ Rest.bare (leveled aliases width finish₂ 0 second) := by
  induction first generalizing level with
  | nil =>
    refine ⟨List.replicate level (Lexeme.sign aliases.dedent), ?_, ?_⟩
    · rw [leveled, Rest.bare, List.map_append, List.map_replicate]
      rfl
    · cases second with
      | nil =>
        rw [List.append_nil, leveled, leveled, Rest.bare, List.map_append, List.map_replicate]
        rfl
      | cons line rest =>
        have outermost : line.spaces / width = 0 := flat line rfl
        have later : Rest.bare (leveled aliases width finish 0 rest) = Rest.bare (leveled aliases width finish₂ 0 rest) :=
          bare_leveled width finish finish₂ 0 rfl
        simp only [Rest.bare] at later
        simp only [List.nil_append, leveled, outermost, Aliases.change, Nat.zero_sub, List.replicate_zero, Nat.sub_zero,
          Rest.bare, List.map_append, List.map_cons, List.map_replicate, List.append_assoc, later]
        rfl
  | cons line first ih =>
    obtain ⟨front, alone, joined⟩ := ih (line.spaces / width)
    simp only [Rest.bare] at alone joined
    refine ⟨Rest.bare (aliases.change line.first.place level (line.spaces / width) ++ line.lexemes ++
      [Lexeme.marker aliases.newline line.finish]) ++ front, ?_, ?_⟩
    · simp [leveled, Rest.bare, alone]
    · simp [leveled, Rest.bare, joined]

theorem closes_leveled (width : Nat) (finish : Place) (level : Nat) (lines : List LogicalLine) :
    ∃ front, Rest.bare (leveled {} width finish level lines) = front ++ [Lexeme.sign ({} : Aliases).endOfInput] ∧
      ∀ l ∈ front.getLast?, l.Closes := by
  induction lines generalizing level with
  | nil =>
    refine ⟨List.replicate level (Lexeme.sign ({} : Aliases).dedent), ?_, fun l last => ?_⟩
    · rw [leveled, Rest.bare, List.map_append, List.map_replicate]
      rfl
    · rw [List.eq_of_mem_replicate (List.mem_of_getLast? last)]
      exact ⟨rfl, by decide⟩
  | cons line lines ih =>
    obtain ⟨front, split, closes⟩ := ih (line.spaces / width)
    simp only [Rest.bare] at split
    refine ⟨Rest.bare (Aliases.change {} line.first.place level (line.spaces / width) ++ line.lexemes) ++
      Lexeme.sign ({} : Aliases).newline :: front, ?_, fun l last => ?_⟩
    · simp only [leveled, Rest.bare, List.map_append, List.map_cons, split, List.append_assoc, List.cons_append]
      rfl
    · rw [List.getLast?_append_cons] at last
      cases front with
      | nil =>
        cases last
        exact ⟨rfl, by decide⟩
      | cons b front =>
        rw [List.getLast?_cons_cons] at last
        exact closes l last

namespace Indentation

variable {rules : Indentation} {first second whole stream₁ stream₂ : List Lexeme}

theorem apply_accepts (positive : 0 < rules.width) (applied : rules.apply aliases first = .ok stream₁) :
    ∀ line ∈ rules.lines first, rules.Accepts line := by
  obtain ⟨marked, blocks, done, -⟩ := apply_parts applied
  exact mark_accepts rules aliases positive _ 0 _ done

theorem accepts_bare (rules : Indentation) (line : LogicalLine) : rules.Accepts line.bare ↔ rules.Accepts line := by
  rw [Accepts, Accepts, LogicalLine.bare, Option.map_eq_none_iff]

theorem flat_of_leveled (width : Nat) (finish : Place) {lines : List LogicalLine}
    (closed : (Rest.bare (leveled aliases width finish 0 lines)).head? ≠ some (Lexeme.sign aliases.indent)) :
    ∀ line ∈ lines.head?, line.spaces / width = 0 := by
  cases lines with
  | nil => exact nofun
  | cons line rest =>
    rintro _ ⟨⟩
    by_contra deeper
    obtain ⟨level, deep⟩ := Nat.exists_eq_succ_of_ne_zero deeper
    rw [leveled, deep, Aliases.change, Nat.sub_zero, List.replicate_succ] at closed
    exact closed rfl

theorem apply_append (positive : 0 < rules.width) (applied₁ : rules.apply aliases first = .ok stream₁)
    (applied₂ : rules.apply aliases second = .ok stream₂)
    (lines : (rules.lines whole).map LogicalLine.bare = (rules.lines first ++ rules.lines second).map LogicalLine.bare)
    (closed : (Rest.bare stream₂).head? ≠ some (Lexeme.sign aliases.indent)) :
    ∃ front stream, rules.apply aliases whole = .ok stream ∧
      Rest.bare stream₁ = front ++ [Lexeme.sign aliases.endOfInput] ∧
      Rest.bare stream = front ++ Rest.bare stream₂ := by
  have accepts₁ := apply_accepts positive applied₁
  have accepts₂ := apply_accepts positive applied₂
  have accepts : ∀ line ∈ rules.lines whole, rules.Accepts line := by
    intro line member
    have known := List.mem_map_of_mem (f := LogicalLine.bare) member
    rw [lines, List.mem_map] at known
    obtain ⟨line', member', same⟩ := known
    have accepted := List.forall_mem_append.2 ⟨accepts₁, accepts₂⟩ line' member'
    exact (accepts_bare rules line).1 (same ▸ (accepts_bare rules line').2 accepted)
  rw [apply_accepted rules aliases first positive accepts₁, Except.ok.injEq] at applied₁
  rw [apply_accepted rules aliases second positive accepts₂, Except.ok.injEq] at applied₂
  subst applied₁ applied₂
  obtain ⟨front, alone, joined⟩ := leveled_append rules.width (Lexeme.endOf whole) (Lexeme.endOf first)
    (Lexeme.endOf second) 0 (rules.lines first) (flat_of_leveled rules.width _ closed)
  refine ⟨front, _, apply_accepted rules aliases whole positive accepts, alone, ?_⟩
  rw [← joined]
  exact bare_leveled rules.width _ _ 0 lines

end Indentation

end ScriptKernel.Layout
