import Mathlib
import ScriptKernel.Proofs.Layout.LogicalLines
import ScriptKernel.Session.Basic

/-!
Word boundaries. Words are put together from lexemes that follow each other
behind the layout. Lexemes that follow each other there follow each other in
the source as well, unless the layout has dropped a line break between them:
a carriage return, or a newline within brackets.
-/

namespace ScriptKernel

def Lexeme.breaksLine (lexeme : Lexeme) : Prop :=
  lexeme.text = "\n" ∨ lexeme.text = "\r"

namespace Layout.Indentation

variable {rules : Indentation} {aliases : Aliases} {a b : Lexeme}

theorem neighbours_behind {marks rest : List Lexeme} (marked : ∀ mark ∈ marks, mark.synthetic)
    (source : a.synthetic = false) (near : [a, b] <:+: marks ++ rest) : [a, b] <:+: rest := by
  induction marks with
  | nil => exact near
  | cons mark marks ih =>
    rcases List.infix_cons_iff.1 near with starts | later
    · have same : a = mark := (List.cons_prefix_cons.1 starts).1
      rw [same, marked mark (by simp)] at source
      cases source
    · exact ih (fun other member => marked other (List.mem_cons_of_mem _ member)) later

theorem neighbours_around {mark : Lexeme} {before after : List Lexeme} (marked : mark.synthetic)
    (sourceA : a.synthetic = false) (sourceB : b.synthetic = false)
    (near : [a, b] <:+: before ++ mark :: after) : [a, b] <:+: before ∨ [a, b] <:+: after := by
  induction before with
  | nil =>
    right
    have alone : ∀ other ∈ [mark], other.synthetic := by simpa using marked
    exact neighbours_behind alone sourceA near
  | cons first before ih =>
    rcases List.infix_cons_iff.1 near with starts | later
    · left
      obtain ⟨rfl, second⟩ := List.cons_prefix_cons.1 starts
      cases before with
      | nil =>
        have same : b = mark := (List.cons_prefix_cons.1 second).1
        rw [same, marked] at sourceB
        cases sourceB
      | cons other before =>
        obtain ⟨rfl, -⟩ := List.cons_prefix_cons.1 second
        exact (List.prefix_append [a, b] before).isInfix
    · exact (ih later).imp_left fun inside => inside.trans (List.suffix_cons _ _).isInfix

theorem neighbours_before {marks rest : List Lexeme} (marked : ∀ mark ∈ marks, mark.synthetic)
    (sourceA : a.synthetic = false) (sourceB : b.synthetic = false)
    (near : [a, b] <:+: rest ++ marks) : [a, b] <:+: rest := by
  cases marks with
  | nil => simpa using near
  | cons mark marks =>
    rw [List.forall_mem_cons] at marked
    refine (neighbours_around marked.1 sourceA sourceB near).resolve_right fun inside => ?_
    have none : [a, b] <:+: [] := neighbours_behind marked.2 sourceA (by simpa using inside)
    simp at none

theorem enter_marks {blocks inner : List Nat} {line : LogicalLine} {marks : List Lexeme}
    (entered : rules.enter aliases blocks line = .ok (marks, inner)) :
    ∀ mark ∈ marks, mark.synthetic := by
  have repeated (count : Nat) (text : String) (place : Place) :
      ∀ mark ∈ List.replicate count (Lexeme.marker text place), mark.synthetic := by
    intro mark member
    rw [List.eq_of_mem_replicate member]
    rfl
  unfold enter at entered
  split at entered
  · cases entered
    simp
  · split at entered
    · cases entered
    · dsimp only at entered
      split at entered <;> split at entered <;> cases entered <;> exact repeated _ _ _

theorem mark_neighbours {lines : List LogicalLine} {blocks outer : List Nat} {marked : List Lexeme}
    (done : rules.mark aliases blocks lines = .ok (marked, outer)) (sourceA : a.synthetic = false)
    (sourceB : b.synthetic = false) (near : [a, b] <:+: marked) :
    ∃ line ∈ lines, [a, b] <:+: line.lexemes := by
  induction lines generalizing blocks marked outer with
  | nil =>
    cases done
    exact absurd near (by simp)
  | cons line rest ih =>
    rw [mark] at done
    cases entered : rules.enter aliases blocks line with
    | error e => simp [entered, bind, Except.bind] at done
    | ok step =>
      obtain ⟨marks, inner⟩ := step
      cases later : rules.mark aliases inner rest with
      | error e => simp [entered, later, bind, Except.bind] at done
      | ok result =>
        obtain ⟨after, left⟩ := result
        simp only [entered, later, bind, Except.bind, Except.ok.injEq, Prod.mk.injEq] at done
        rw [← done.1, List.append_assoc] at near
        rcases neighbours_around rfl sourceA sourceB
          (neighbours_behind (enter_marks entered) sourceA near) with here | further
        · exact ⟨line, List.mem_cons_self, here⟩
        · obtain ⟨other, member, inside⟩ := ih later further
          exact ⟨other, List.mem_cons_of_mem _ member, inside⟩

theorem apply_neighbours {lexemes output : List Lexeme}
    (applied : rules.apply aliases lexemes = .ok output) (sourceA : a.synthetic = false)
    (sourceB : b.synthetic = false) (near : [a, b] <:+: output) :
    ∃ line ∈ rules.logicalLines lexemes, [a, b] <:+: line.lexemes := by
  rw [apply, lines_eq_logicalLines] at applied
  cases done : rules.mark aliases [] (rules.logicalLines lexemes) with
  | error e => simp [done, bind, Except.bind] at applied
  | ok result =>
    obtain ⟨marked, left⟩ := result
    simp only [done, bind, Except.bind, Except.ok.injEq] at applied
    rw [← applied, List.append_assoc] at near
    refine mark_neighbours done sourceA sourceB (neighbours_before (fun mark member => ?_) sourceA sourceB near)
    rcases List.mem_append.1 member with closing | last
    · rw [List.eq_of_mem_replicate closing]
      rfl
    · rw [List.mem_singleton.1 last]
      rfl

/-- The lexeme is left out of its line. -/
def IsDropped (rules : Indentation) (entry : Position × Lexeme) : Prop :=
  entry.1.isContent rules entry.2.text = false

theorem content_neighbours {entries : List (Position × Lexeme)}
    (near : [a, b] <:+: rules.content entries) :
    ∃ before p gap q after, entries = before ++ (p, a) :: (gap ++ (q, b) :: after) ∧
      p.isContent rules a.text = true ∧ q.isContent rules b.text = true ∧
      ∀ entry ∈ gap, rules.IsDropped entry := by
  obtain ⟨earlier, later, whole⟩ := near
  rw [content, List.append_assoc, eq_comm, List.map_eq_append_iff] at whole
  obtain ⟨_, kept, filtered, -, fromA⟩ := whole
  obtain ⟨⟨p, _⟩, kept, rfl, rfl, fromB⟩ := List.map_eq_cons_iff.1 fromA
  obtain ⟨⟨q, _⟩, kept, rfl, rfl, -⟩ := List.map_eq_cons_iff.1 fromB
  obtain ⟨first, rest, rfl, -, filtered⟩ := List.filter_eq_append_iff.1 filtered
  obtain ⟨before, rest, rfl, -, contentA, filtered⟩ := List.filter_eq_cons_iff.1 filtered
  obtain ⟨gap, after, rfl, dropped, contentB, -⟩ := List.filter_eq_cons_iff.1 filtered
  refine ⟨first ++ before, p, gap, q, after, by simp, contentA, contentB, fun entry member => ?_⟩
  simpa [IsDropped] using dropped entry member

theorem placed_split {p q : Position} {lexemes : List Lexeme} {lexeme : Lexeme}
    {before rest : List (Position × Lexeme)}
    (whole : rules.placed p lexemes = before ++ (q, lexeme) :: rest) :
    ∃ after, lexemes = before.map (·.2) ++ lexeme :: after ∧
      rules.placed (q.next rules lexeme.text) after = rest := by
  induction before generalizing p lexemes with
  | nil =>
    cases lexemes with
    | nil => simp [placed] at whole
    | cons first after =>
      simp only [placed, List.nil_append, List.cons.injEq, Prod.mk.injEq] at whole
      obtain ⟨⟨rfl, rfl⟩, rest⟩ := whole
      exact ⟨after, rfl, rest⟩
  | cons entry before ih =>
    cases lexemes with
    | nil => simp [placed] at whole
    | cons first others =>
      simp only [placed, List.cons_append, List.cons.injEq] at whole
      obtain ⟨after, split, rest⟩ := ih whole.2
      exact ⟨after, by rw [split, ← whole.1]; rfl, rest⟩

theorem break_in_comment {p q : Position} {lexemes : List Lexeme}
    {gap after : List (Position × Lexeme)} (comment : p.mode = .comment)
    (whole : rules.placed p lexemes = gap ++ (q, b) :: after)
    (content : q.isContent rules b.text = true) : ∃ entry ∈ gap, entry.2.breaksLine := by
  induction gap generalizing p lexemes with
  | nil =>
    cases lexemes with
    | nil => simp [placed] at whole
    | cons lexeme rest =>
      simp only [placed, List.nil_append, List.cons.injEq, Prod.mk.injEq] at whole
      rw [← whole.1.1, Position.isContent, comment] at content
      cases content
  | cons entry gap ih =>
    cases lexemes with
    | nil => simp [placed] at whole
    | cons lexeme rest =>
      simp only [placed, List.cons_append, List.cons.injEq] at whole
      by_cases newline : lexeme.text = "\n"
      · exact ⟨entry, List.mem_cons_self, .inl (whole.1 ▸ newline)⟩
      · have still : (p.next rules lexeme.text).mode = .comment := by
          simp [Position.next, comment, newline]
        obtain ⟨found, member, breaks⟩ := ih still whole.2
        exact ⟨found, List.mem_cons_of_mem _ member, breaks⟩

theorem break_in_gap {p q : Position} {lexemes : List Lexeme} {gap after : List (Position × Lexeme)}
    (whole : rules.placed p lexemes = gap ++ (q, b) :: after)
    (content : q.isContent rules b.text = true) (dropped : ∀ entry ∈ gap, rules.IsDropped entry)
    (something : gap ≠ []) : ∃ entry ∈ gap, entry.2.breaksLine := by
  cases gap with
  | nil => exact absurd rfl something
  | cons entry gap =>
    cases lexemes with
    | nil => simp [placed] at whole
    | cons lexeme rest =>
      have first := dropped entry List.mem_cons_self
      have whole' := whole
      simp only [placed, List.cons_append, List.cons.injEq] at whole
      rw [← whole.1, IsDropped, Position.isContent] at first
      cases mode : p.mode with
      | string quote escaped => simp [mode] at first
      | comment => exact break_in_comment mode whole' content
      | code =>
        by_cases breaks : lexeme.breaksLine
        · exact ⟨entry, List.mem_cons_self, whole.1 ▸ breaks⟩
        · obtain ⟨noNewline, noReturn⟩ := not_or.1 breaks
          obtain ⟨visible, mark⟩ :
              isBlank lexeme.text = false ∧ rules.comment ≠ "" ∧ lexeme.text = rules.comment := by
            simpa [mode, noNewline, noReturn] using first
          have still : (p.next rules lexeme.text).mode = .comment := by
            simp only [Position.next, mode]
            rw [if_neg (by simp [noNewline, noReturn, visible]), Position.afterCode, if_pos mark]
          obtain ⟨found, member, breaks⟩ := break_in_comment still whole.2 content
          exact ⟨found, List.mem_cons_of_mem _ member, breaks⟩

/-- Source lexemes that are neighbours behind the layout have only dropped
lexemes between them, a line break among them if there are any. -/
theorem apply_gap {lexemes output : List Lexeme} (applied : rules.apply aliases lexemes = .ok output)
    (sourceA : a.synthetic = false) (sourceB : b.synthetic = false) (near : [a, b] <:+: output) :
    ∃ before gap after, lexemes = before ++ a :: (gap ++ b :: after) ∧
      (gap = [] ∨ ∃ lexeme ∈ gap, lexeme.breaksLine) := by
  obtain ⟨line, isLine, inLine⟩ := apply_neighbours applied sourceA sourceB near
  obtain ⟨part, isPart, found⟩ := List.mem_filterMap.1 isLine
  rw [lexemes_of_logicalLine? found] at inLine
  obtain ⟨before, p, gap, q, after, rfl, -, content, dropped⟩ :=
    content_neighbours (inLine.trans (List.dropWhile_suffix _).isInfix)
  obtain ⟨earlier, later, whole⟩ := (parts_within _).2 _ isPart
  have toA : rules.placed {} lexemes =
      (earlier ++ before) ++ (p, a) :: (gap ++ (q, b) :: (after ++ later)) := by
    simp [← whole]
  obtain ⟨rest, split, fromA⟩ := placed_split toA
  obtain ⟨others, fromGap, -⟩ := placed_split fromA
  refine ⟨_, gap.map (·.2), others, fromGap ▸ split, ?_⟩
  by_cases something : gap = []
  · exact .inl (by rw [something]; rfl)
  · obtain ⟨entry, member, breaks⟩ := break_in_gap fromA content dropped something
    exact .inr ⟨entry.2, List.mem_map_of_mem member, breaks⟩

end Layout.Indentation

theorem Lexer.cut_contiguous (table : Table) (place : Place) (text : List Char) {a b : Lexeme}
    (near : [a, b] <:+: cut table place text) : b.place.offset = a.stop := by
  fun_induction cut table place text with
  | case1 place => simp at near
  | case2 place c rest more text next ih =>
    rcases List.infix_cons_iff.1 near with starts | later
    · obtain ⟨rfl, second⟩ := List.cons_prefix_cons.1 starts
      cases others : rest.drop more with
      | nil => simp [others, cut] at second
      | cons d others' =>
        rw [others, cut] at second
        rw [(List.cons_prefix_cons.1 second).1]
    · exact ih later

theorem Lexer.lex_contiguous {table : Table} {source : List UInt8} {lexemes : List Lexeme}
    (lexed : lex table source = .ok lexemes) {a b : Lexeme} (near : [a, b] <:+: lexemes) :
    b.place.offset = a.stop := by
  unfold lex at lexed
  dsimp only at lexed
  split at lexed
  · cases lexed
    exact cut_contiguous table _ _ near
  · cases lexed

/-- In a language with an indentation layout, a source lexeme of the stream
starts at the byte where the source lexeme before it ends, unless a line break
between the two has been dropped. -/
theorem tokens_word_boundaries {s : Session} {rules : Layout.Indentation}
    (layout : s.language.layout = .indentation rules) {source : List UInt8} {tokens : List Lexeme}
    (found : s.tokens source = .ok tokens) {a b : Lexeme} (sourceA : a.synthetic = false)
    (sourceB : b.synthetic = false) (near : [a, b] <:+: tokens) :
    ∃ lexemes before gap after, s.lex source = .ok lexemes ∧
      lexemes = before ++ a :: (gap ++ b :: after) ∧
      (b.place.offset = a.stop ∨ ∃ lexeme ∈ gap, lexeme.breaksLine) := by
  cases lexed : Lexer.lex s.language.table source with
  | error e => simp [Session.tokens, Session.lex, lexed, Except.mapError, bind, Except.bind] at found
  | ok lexemes =>
    have read : s.lex source = .ok lexemes := by rw [Session.lex, lexed, Except.mapError]
    simp only [Session.tokens, read, layout, Layout.apply, bind, Except.bind] at found
    cases applied : rules.apply {} lexemes with
    | error e => simp [applied, Except.mapError] at found
    | ok output =>
      rw [applied] at found
      cases found
      obtain ⟨before, gap, after, split, dropped⟩ :=
        Layout.Indentation.apply_gap applied sourceA sourceB near
      refine ⟨lexemes, before, gap, after, read, split, dropped.imp_left fun nothing => ?_⟩
      have neighbours : [a, b] <:+: lexemes := ⟨before, after, by rw [split, nothing]; simp⟩
      exact Lexer.lex_contiguous lexed neighbours

theorem tokens_word_boundaries_line :
    let s : Session := ⟨Language.lumen, {}⟩
    let source := Text.Utf8.encode "ab\n"
    ∃ lexemes before gap after a b, a.text = "a" ∧ b.text = "b" ∧ s.lex source = .ok lexemes ∧
      lexemes = before ++ a :: (gap ++ b :: after) ∧
      (b.place.offset = a.stop ∨ ∃ lexeme ∈ gap, lexeme.breaksLine) := by
  intro s source
  have found : ∃ tokens, s.tokens (Text.Utf8.encode "ab\n") = .ok tokens ∧
      [⟨"a", ⟨0, 1, 1⟩, 1, false⟩, ⟨"b", ⟨1, 1, 2⟩, 2, false⟩] <:+: tokens := by
    refine ⟨?tokens, ?lexed, ?near⟩
    case lexed => cbv; rfl
    case near => exact ⟨[], _, rfl⟩
  obtain ⟨tokens, found, near⟩ := found
  obtain ⟨lexemes, before, gap, after, holds⟩ := tokens_word_boundaries rfl found rfl rfl near
  exact ⟨lexemes, before, gap, after, _, _, rfl, rfl, holds⟩

/-- Within brackets the word of a line and the word at the start of the next
are read as one word, which the source does not have. -/
theorem tokens_word_gap :
    let s : Session := ⟨Language.lumen, {}⟩
    ∃ before a b after, s.tokens (Text.Utf8.encode "x = [a\nb]\n") = .ok (before ++ a :: b :: after) ∧
      a.isWord = true ∧ b.isWord = true ∧ b.place.offset ≠ a.stop ∧
      Rest.word (a :: b :: after) = "ab" := by
  intro s
  have found : ∃ tokens, s.tokens (Text.Utf8.encode "x = [a\nb]\n") = .ok tokens ∧
      ∃ before a b after, tokens = before ++ a :: b :: after ∧
      a.isWord = true ∧ b.isWord = true ∧ b.place.offset ≠ a.stop ∧
      Rest.word (a :: b :: after) = "ab" := by
    refine ⟨?tokens, ?lexed, ?gap⟩
    case lexed => cbv; rfl
    case gap =>
      refine ⟨_ :: _ :: _ :: _ :: _ :: [], _, _, _, rfl, ?_, ?_, ?_, ?_⟩ <;> decide
  obtain ⟨_, found, before, a, b, after, rfl, holds⟩ := found
  exact ⟨before, a, b, after, found, holds⟩

end ScriptKernel
