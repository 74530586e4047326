import Mathlib.Data.List.Pairwise
import ScriptKernel.Layout.Basic
import ScriptKernel.Proofs.Source.MaximalMunch

/-!
Where the marks of a layout stand. A layout keeps source lexemes in their order
and adds markers at the ends of lexemes, so that the stream still goes forward;
and its last lexeme is the only one that marks the end of the input.
-/

namespace ScriptKernel

inductive Lexeme.Beside (l : Lexeme) : Lexeme → Prop where
  | self : Beside l l
  | start (text : String) : Beside l (Lexeme.marker text l.place)
  | finish (text : String) : Beside l (Lexeme.marker text l.endPlace)

theorem Lexeme.endPlace_offset (l : Lexeme) : l.endPlace.offset = l.stop := by
  unfold endPlace
  split
  · rfl
  · rfl

theorem Lexeme.Beside.within {l m : Lexeme} (beside : l.Beside m) (grows : l.place.offset ≤ l.stop) :
    l.place.offset ≤ m.place.offset ∧ m.place.offset ≤ m.stop ∧ m.stop ≤ l.stop := by
  have ends := l.endPlace_offset
  cases beside with
  | self => exact ⟨Nat.le_refl _, grows, Nat.le_refl _⟩
  | start text => exact ⟨Nat.le_refl _, Nat.le_refl _, grows⟩
  | finish text =>
    refine ⟨?_, Nat.le_refl _, ?_⟩
    · show l.place.offset ≤ l.endPlace.offset
      omega
    · show l.endPlace.offset ≤ l.stop
      omega

theorem Lexeme.forward_append {first second : List Lexeme} : Forward (first ++ second) ↔
    Forward first ∧ Forward second ∧ ∀ a ∈ first, ∀ b ∈ second, a.stop ≤ b.place.offset :=
  List.pairwise_append

theorem Lexeme.Forward.between {first : Lexeme} {others : List Lexeme} (forward : Forward (first :: others))
    (grows : ∀ l ∈ first :: others, l.place.offset ≤ l.stop) :
    ∀ l ∈ first :: others, first.place.offset ≤ l.place.offset ∧ l.stop ≤ ((others.getLast?).getD first).stop := by
  induction others generalizing first with
  | nil => exact List.forall_mem_singleton.2 ⟨Nat.le_refl _, Nat.le_refl _⟩
  | cons second others ih =>
    obtain ⟨ahead, rest⟩ := List.pairwise_cons.1 forward
    rw [List.forall_mem_cons] at grows
    have inner := ih rest grows.2
    have last : ((second :: others).getLast?).getD first = (others.getLast?).getD second := by
      rw [List.getLast?_cons]
      rfl
    rw [last, List.forall_mem_cons]
    have next := inner second List.mem_cons_self
    have step := ahead second List.mem_cons_self
    have longer := grows.2 second List.mem_cons_self
    refine ⟨⟨Nat.le_refl _, by omega⟩, fun l member => ⟨?_, (inner l member).2⟩⟩
    have start := grows.1
    have later := (inner l member).1
    omega

def Lexeme.Ended (aliases : Aliases) (stream : List Lexeme) : Prop :=
  ∃ front finish, stream = front ++ [Lexeme.marker aliases.endOfInput finish] ∧
    ∀ l ∈ front, l.synthetic = true → l.text ≠ aliases.endOfInput

namespace Layout.Indentation

variable {rules : Indentation} {aliases : Aliases} {blocks inner outer : List Nat} {line : LogicalLine}
  {lines : List LogicalLine} {marks marked : List Lexeme} {e : LexError}

/-- What reading a lexeme does to the line: it keeps the lexeme or drops it, and
a tab is one at its place. -/
structure Takes (r : Reading) (l : Lexeme) (r' : Reading) : Prop where
  kept : r'.kept = l :: r.kept ∨ r'.kept = r.kept
  tab : ∀ p, r'.tab = some p → r.tab = some p ∨ p = l.place

theorem keepInString_takes (rules : Indentation) (r : Reading) (quote : String) (escaped : Bool) (l : Lexeme) :
    Takes r l (rules.keepInString r quote escaped l) :=
  ⟨Or.inl rfl, fun _ => Or.inl⟩

theorem keepInCode_takes (rules : Indentation) (r : Reading) (l : Lexeme) : Takes r l (rules.keepInCode r l) := by
  have blank (spaces : Nat) :
      Takes r l { r with spaces, tab := if l.text = "\t" then r.tab.or (some l.place) else r.tab } := by
    refine ⟨Or.inr rfl, fun p here => ?_⟩
    dsimp only at here
    split at here
    · cases before : r.tab with
      | none =>
        rw [before] at here
        cases here
        exact Or.inr rfl
      | some tab =>
        rw [before] at here
        exact Or.inl here
    · exact Or.inl here
  have kept : Takes r l (rules.keep r l) := by
    unfold keep
    dsimp only
    repeat' split
    all_goals exact ⟨Or.inl rfl, fun _ => Or.inl⟩
  unfold keepInCode
  split
  · exact ⟨Or.inr rfl, fun _ => Or.inl⟩
  split
  · split
    · exact blank _
    · exact ⟨Or.inl rfl, fun _ => Or.inl⟩
  split
  · exact ⟨Or.inr rfl, fun _ => Or.inl⟩
  · exact kept

theorem linesFrom_sublist (rules : Indentation) (r : Reading) (lexemes : List Lexeme) :
    ((rules.linesFrom r lexemes).flatMap LogicalLine.lexemes).Sublist (r.kept.reverse ++ lexemes) := by
  have finished (r : Reading) : r.finish.toList.flatMap LogicalLine.lexemes = r.kept.reverse := by
    unfold Reading.finish
    split
    next none => simp [none]
    next first others some => simp [some, LogicalLine.lexemes]
  have more {r r' : Reading} {l : Lexeme} {rest : List Lexeme} {lines : List LogicalLine} (takes : Takes r l r')
      (ih : (lines.flatMap LogicalLine.lexemes).Sublist (r'.kept.reverse ++ rest)) :
      (lines.flatMap LogicalLine.lexemes).Sublist (r.kept.reverse ++ l :: rest) := by
    rcases takes.kept with kept | dropped
    · rw [kept] at ih
      simpa using ih
    · rw [dropped] at ih
      exact ih.trans ((List.sublist_cons_self l rest).append_left _)
  have same (r : Reading) (l : Lexeme) : Takes r l r := ⟨Or.inr rfl, fun _ => Or.inl⟩
  have ended {r : Reading} {l : Lexeme} {rest : List Lexeme}
      (ih : ((rules.linesFrom {} rest).flatMap LogicalLine.lexemes).Sublist rest) :
      ((r.finish.toList ++ rules.linesFrom {} rest).flatMap LogicalLine.lexemes).Sublist
        (r.kept.reverse ++ l :: rest) := by
    rw [List.flatMap_append, finished]
    exact (ih.trans (List.sublist_cons_self l rest)).append_left _
  fun_induction linesFrom rules r lexemes with
  | case1 r => rw [finished, List.append_nil]
  | case2 r l rest quote escaped _ ih => exact more (keepInString_takes rules r quote escaped l) ih
  | case3 r l rest _ _ ih => exact more (same r l) ih
  | case4 r l rest _ _ _ ih => exact more ⟨Or.inr rfl, fun _ => Or.inl⟩ ih
  | case5 r l rest _ _ _ ih => exact ended ih
  | case6 r l rest _ _ ih => exact more (keepInCode_takes rules r l) ih
  | case7 r l rest _ _ _ ih => exact more (same r l) ih
  | case8 r l rest _ _ _ ih => exact ended ih

theorem linesFrom_tab (rules : Indentation) (r : Reading) (lexemes : List Lexeme) :
    ∀ line ∈ rules.linesFrom r lexemes, ∀ p, line.tab = some p →
      r.tab = some p ∨ ∃ l ∈ lexemes, p = l.place := by
  have finished (r : Reading) : ∀ line ∈ r.finish.toList, line.tab = r.tab := by
    unfold Reading.finish
    split
    · exact List.forall_mem_nil _
    · exact List.forall_mem_singleton.2 rfl
  have more {r r' : Reading} {l : Lexeme} {rest : List Lexeme} {p : Place} (takes : Takes r l r')
      (ih : r'.tab = some p ∨ ∃ l ∈ rest, p = l.place) : r.tab = some p ∨ ∃ l' ∈ l :: rest, p = l'.place := by
    rcases ih with here | ⟨l', member, same⟩
    · rcases takes.tab p here with before | this
      · exact Or.inl before
      · exact Or.inr ⟨l, List.mem_cons_self, this⟩
    · exact Or.inr ⟨l', List.mem_cons_of_mem _ member, same⟩
  have same (r : Reading) (l : Lexeme) : Takes r l r := ⟨Or.inr rfl, fun _ => Or.inl⟩
  have ended {r : Reading} {l : Lexeme} {rest : List Lexeme}
      (ih : ∀ line ∈ rules.linesFrom {} rest, ∀ p, line.tab = some p →
        ({} : Reading).tab = some p ∨ ∃ l ∈ rest, p = l.place) :
      ∀ line ∈ r.finish.toList ++ rules.linesFrom {} rest, ∀ p, line.tab = some p →
        r.tab = some p ∨ ∃ l' ∈ l :: rest, p = l'.place := by
    intro line member p here
    rcases List.mem_append.1 member with this | later
    · rw [finished r line this] at here
      exact Or.inl here
    · rcases ih line later p here with none | ⟨l', member, same⟩
      · cases none
      · exact Or.inr ⟨l', List.mem_cons_of_mem _ member, same⟩
  fun_induction linesFrom rules r lexemes with
  | case1 r =>
    intro line member p here
    rw [finished r line member] at here
    exact Or.inl here
  | case2 r l rest quote escaped _ ih =>
    exact fun line member p here => more (keepInString_takes rules r quote escaped l) (ih line member p here)
  | case3 r l rest _ _ ih => exact fun line member p here => more (same r l) (ih line member p here)
  | case4 r l rest _ _ _ ih =>
    exact fun line member p here => more ⟨Or.inr rfl, fun _ => Or.inl⟩ (ih line member p here)
  | case5 r l rest _ _ _ ih => exact ended ih
  | case6 r l rest _ _ ih =>
    exact fun line member p here => more (keepInCode_takes rules r l) (ih line member p here)
  | case7 r l rest _ _ _ ih => exact fun line member p here => more (same r l) (ih line member p here)
  | case8 r l rest _ _ _ ih => exact ended ih

theorem enter_marked (entered : rules.enter aliases blocks line = .ok (marks, inner)) :
    ∀ mark ∈ marks, ∃ text ∈ [aliases.indent, aliases.dedent], mark = Lexeme.marker text line.first.place := by
  have repeated {count : Nat} {text : String} (known : text ∈ [aliases.indent, aliases.dedent]) :
      ∀ mark ∈ List.replicate count (Lexeme.marker text line.first.place),
        ∃ text ∈ [aliases.indent, aliases.dedent], mark = Lexeme.marker text line.first.place :=
    fun mark member => ⟨text, known, List.eq_of_mem_replicate member⟩
  unfold enter at entered
  dsimp only at entered
  split at entered
  · cases entered
    exact List.forall_mem_nil _
  split at entered
  · cases entered
  split at entered
  · split at entered
    · cases entered
    · cases entered
      exact repeated (by simp)
  · split at entered
    · cases entered
    · cases entered
      exact repeated (by simp)

theorem enter_refused (refused : rules.enter aliases blocks line = .error e) :
    ∃ p fault, e = LexError.atPlace p fault ∧ (line.tab = some p ∨ p = line.first.place) := by
  unfold enter at refused
  dsimp only at refused
  split at refused
  · cases refused
  split at refused
  next tab here =>
    cases refused
    exact ⟨tab, _, rfl, Or.inl here⟩
  split at refused
  · split at refused
    · cases refused
      exact ⟨_, _, rfl, Or.inr rfl⟩
    · cases refused
  · split at refused
    · cases refused
      exact ⟨_, _, rfl, Or.inr rfl⟩
    · cases refused

theorem mark_cons (done : rules.mark aliases blocks (line :: lines) = .ok (marked, outer)) :
    ∃ marks inner after, rules.enter aliases blocks line = .ok (marks, inner) ∧
      rules.mark aliases inner lines = .ok (after, outer) ∧
      marked = marks ++ line.lexemes ++
        Lexeme.marker aliases.newline ((line.others.getLast?).getD line.first).endPlace :: after := by
  rw [mark] at done
  cases entered : rules.enter aliases blocks line with
  | error e => simp [entered, bind, Except.bind] at done
  | ok step =>
    obtain ⟨marks, inner⟩ := step
    cases later : rules.mark aliases inner lines with
    | error e => simp [entered, later, bind, Except.bind] at done
    | ok result =>
      obtain ⟨after, left⟩ := result
      simp only [entered, later, bind, Except.bind, Except.ok.injEq, Prod.mk.injEq] at done
      exact ⟨marks, inner, after, rfl, done.2 ▸ later, done.1.symm⟩

theorem last_mem (line : LogicalLine) : (line.others.getLast?).getD line.first ∈ line.lexemes := by
  cases last : line.others.getLast? with
  | none => exact List.mem_cons_self
  | some l => exact List.mem_cons_of_mem _ (List.mem_of_getLast? last)

theorem mark_beside (done : rules.mark aliases blocks lines = .ok (marked, outer)) :
    ∀ m ∈ marked, ∃ l ∈ lines.flatMap LogicalLine.lexemes, l.Beside m := by
  induction lines generalizing blocks marked outer with
  | nil =>
    cases done
    exact List.forall_mem_nil _
  | cons line lines ih =>
    obtain ⟨marks, inner, after, entered, later, rfl⟩ := mark_cons done
    rw [List.flatMap_cons, List.forall_mem_append, List.forall_mem_append, List.forall_mem_cons]
    refine ⟨⟨fun m mark => ?_, fun m own => ⟨m, List.mem_append_left _ own, .self⟩⟩, ?_, fun m further => ?_⟩
    · obtain ⟨text, -, rfl⟩ := enter_marked entered m mark
      exact ⟨line.first, List.mem_append_left _ List.mem_cons_self, .start text⟩
    · exact ⟨_, List.mem_append_left _ (last_mem line), .finish _⟩
    · obtain ⟨l, known, beside⟩ := ih later m further
      exact ⟨l, List.mem_append_right _ known, beside⟩

theorem mark_unended (distinct : aliases.endOfInput ∉ [aliases.indent, aliases.dedent, aliases.newline])
    (real : ∀ l ∈ lines.flatMap LogicalLine.lexemes, l.synthetic = false)
    (done : rules.mark aliases blocks lines = .ok (marked, outer)) :
    ∀ m ∈ marked, m.synthetic = true → m.text ≠ aliases.endOfInput := by
  simp only [List.mem_cons, List.not_mem_nil, or_false, not_or] at distinct
  induction lines generalizing blocks marked outer with
  | nil =>
    cases done
    exact List.forall_mem_nil _
  | cons line lines ih =>
    obtain ⟨marks, inner, after, entered, later, rfl⟩ := mark_cons done
    rw [List.flatMap_cons, List.forall_mem_append] at real
    rw [List.forall_mem_append, List.forall_mem_append, List.forall_mem_cons]
    refine ⟨⟨fun m mark _ => ?_, fun m own marker => ?_⟩, fun _ => Ne.symm distinct.2.2, ih real.2 later⟩
    · obtain ⟨text, known, rfl⟩ := enter_marked entered m mark
      rcases List.mem_cons.1 known with rfl | known
      · exact Ne.symm distinct.1
      · rw [List.mem_singleton.1 known]
        exact Ne.symm distinct.2.1
    · rw [real.1 m own] at marker
      cases marker

theorem mark_forward (forward : Lexeme.Forward (lines.flatMap LogicalLine.lexemes))
    (grows : ∀ l ∈ lines.flatMap LogicalLine.lexemes, l.place.offset ≤ l.stop)
    (done : rules.mark aliases blocks lines = .ok (marked, outer)) : Lexeme.Forward marked := by
  induction lines generalizing blocks marked outer with
  | nil =>
    cases done
    exact List.Pairwise.nil
  | cons line lines ih =>
    obtain ⟨marks, inner, after, entered, later, rfl⟩ := mark_cons done
    rw [List.flatMap_cons] at forward grows
    obtain ⟨own, others, ahead⟩ := Lexeme.forward_append.1 forward
    rw [List.forall_mem_append] at grows
    have spans := Lexeme.Forward.between own grows.1
    have atStart : ∀ m ∈ marks, m.place.offset = line.first.place.offset ∧ m.stop = line.first.place.offset := by
      intro m mark
      obtain ⟨text, -, rfl⟩ := enter_marked entered m mark
      exact ⟨rfl, rfl⟩
    have last := last_mem line
    generalize (line.others.getLast?).getD line.first = final at spans last ⊢
    have within : ∀ m ∈ marks ++ line.lexemes, m.stop ≤ final.stop := by
      rw [List.forall_mem_append]
      refine ⟨fun m mark => ?_, fun m member => (spans m member).2⟩
      have here := (atStart m mark).2
      have start := grows.1 line.first List.mem_cons_self
      have ends := (spans line.first List.mem_cons_self).2
      omega
    have behind : ∀ m ∈ after, final.stop ≤ m.place.offset := by
      intro m member
      obtain ⟨l, known, beside⟩ := mark_beside later m member
      have starts := (beside.within (grows.2 l known)).1
      have gap := ahead final last l known
      omega
    have finish := final.endPlace_offset
    apply Lexeme.forward_append.2
    refine ⟨Lexeme.forward_append.2 ⟨?_, own, ?_⟩, ?_, ?_⟩
    · apply List.pairwise_of_forall_mem_list
      intro a memberA b memberB
      exact Nat.le_of_eq ((atStart a memberA).2.trans (atStart b memberB).1.symm)
    · intro a mark b member
      rw [(atStart a mark).2]
      exact (spans b member).1
    · refine List.pairwise_cons.2 ⟨fun b member => ?_, ih others grows.2 later⟩
      show final.endPlace.offset ≤ b.place.offset
      rw [finish]
      exact behind b member
    · intro a memberA
      rw [List.forall_mem_cons]
      refine ⟨?_, fun b memberB => Nat.le_trans (within a memberA) (behind b memberB)⟩
      show a.stop ≤ final.endPlace.offset
      rw [finish]
      exact within a memberA

theorem mark_refused (refused : rules.mark aliases blocks lines = .error e) :
    ∃ line ∈ lines, ∃ p fault, e = LexError.atPlace p fault ∧ (line.tab = some p ∨ p = line.first.place) := by
  induction lines generalizing blocks with
  | nil => cases refused
  | cons line lines ih =>
    rw [mark] at refused
    cases entered : rules.enter aliases blocks line with
    | error e' =>
      rw [entered] at refused
      cases refused
      exact ⟨line, List.mem_cons_self, enter_refused entered⟩
    | ok step =>
      obtain ⟨marks, inner⟩ := step
      cases later : rules.mark aliases inner lines with
      | error e' =>
        have same : e' = e := by simpa [entered, later, bind, Except.bind] using refused
        rw [same] at later
        obtain ⟨line', member, where_⟩ := ih later
        exact ⟨line', List.mem_cons_of_mem _ member, where_⟩
      | ok result => simp [entered, later, bind, Except.bind] at refused

end Layout.Indentation

namespace Layout

variable {aliases : Aliases} {layout : Layout} {lexemes stream : List Lexeme} {P : Place → Prop}

structure Placed (P : Place → Prop) (lexemes : List Lexeme) : Prop where
  real : ∀ l ∈ lexemes, l.synthetic = false
  grows : ∀ l ∈ lexemes, l.place.offset ≤ l.stop
  start : ∀ l ∈ lexemes, P l.place
  finish : ∀ l ∈ lexemes, P l.endPlace
  forward : Lexeme.Forward lexemes

/-- What is known of the stream: it stands at such places, its markers are empty
and it goes forward. -/
structure Streamed (P : Place → Prop) (stream : List Lexeme) : Prop where
  places : ∀ m ∈ stream, P m.place
  empty : ∀ m ∈ stream, m.synthetic = true → m.stop = m.place.offset
  forward : stream.Pairwise fun a b => a.place.offset ≤ b.place.offset

theorem Placed.endOf (placed : Placed P lexemes) (start : P Place.start) : P (Lexeme.endOf lexemes) := by
  unfold Lexeme.endOf
  split
  next last found => exact placed.finish last (List.mem_of_getLast? found)
  next => exact start

theorem Placed.le_endOf (placed : Placed P lexemes) : ∀ l ∈ lexemes, l.stop ≤ (Lexeme.endOf lexemes).offset := by
  cases lexemes with
  | nil => exact List.forall_mem_nil _
  | cons first others =>
    intro l member
    have finish : Lexeme.endOf (first :: others) = ((others.getLast?).getD first).endPlace := by
      rw [Lexeme.endOf, List.getLast?_cons]
    rw [finish, Lexeme.endPlace_offset]
    exact (Lexeme.Forward.between placed.forward placed.grows l member).2

theorem Placed.within (placed : Placed P lexemes) {front : List Lexeme}
    (beside : ∀ m ∈ front, ∃ l ∈ lexemes, l.Beside m) :
    ∀ m ∈ front, m.place.offset ≤ m.stop ∧ m.stop ≤ (Lexeme.endOf lexemes).offset := by
  intro m member
  obtain ⟨l, known, near⟩ := beside m member
  obtain ⟨-, grows, ends⟩ := near.within (placed.grows l known)
  exact ⟨grows, Nat.le_trans ends (placed.le_endOf l known)⟩

theorem Placed.streamed (placed : Placed P lexemes) (start : P Place.start) {front last : List Lexeme}
    (beside : ∀ m ∈ front, ∃ l ∈ lexemes, l.Beside m) (forward : Lexeme.Forward front)
    (closing : ∀ m ∈ last, ∃ text, m = Lexeme.marker text (Lexeme.endOf lexemes)) :
    Streamed P (front ++ last) := by
  have within := placed.within beside
  refine ⟨?_, ?_, ?_⟩
  · rw [List.forall_mem_append]
    refine ⟨fun m member => ?_, fun m member => ?_⟩
    · obtain ⟨l, known, near⟩ := beside m member
      cases near with
      | self => exact placed.start m known
      | start text => exact placed.start l known
      | finish text => exact placed.finish l known
    · obtain ⟨text, rfl⟩ := closing m member
      exact placed.endOf start
  · rw [List.forall_mem_append]
    refine ⟨fun m member marker => ?_, fun m member _ => ?_⟩
    · obtain ⟨l, known, near⟩ := beside m member
      cases near with
      | self =>
        rw [placed.real m known] at marker
        cases marker
      | start text => rfl
      | finish text => rfl
    · obtain ⟨text, rfl⟩ := closing m member
      rfl
  · refine List.pairwise_append.2 ⟨?_, ?_, ?_⟩
    · exact forward.imp_of_mem fun memberA _ ahead => Nat.le_trans (within _ memberA).1 ahead
    · apply List.pairwise_of_forall_mem_list
      intro a memberA b memberB
      obtain ⟨text, rfl⟩ := closing a memberA
      obtain ⟨text', rfl⟩ := closing b memberB
      exact Nat.le_refl _
    · intro a memberA b memberB
      obtain ⟨text, rfl⟩ := closing b memberB
      exact Nat.le_trans (within a memberA).1 (within a memberA).2

theorem Indentation.apply_parts {rules : Indentation} (applied : rules.apply aliases lexemes = .ok stream) :
    ∃ marked blocks, rules.mark aliases [] (rules.lines lexemes) = .ok (marked, blocks) ∧
      stream = marked ++ List.replicate blocks.length (Lexeme.marker aliases.dedent (Lexeme.endOf lexemes)) ++
        [Lexeme.marker aliases.endOfInput (Lexeme.endOf lexemes)] := by
  unfold Indentation.apply at applied
  cases done : rules.mark aliases [] (rules.lines lexemes) with
  | error e => simp [done, bind, Except.bind] at applied
  | ok result =>
    obtain ⟨marked, blocks⟩ := result
    simp only [done, bind, Except.bind, Except.ok.injEq] at applied
    exact ⟨marked, blocks, rfl, applied.symm⟩

theorem Indentation.mem_lines {rules : Indentation} {l : Lexeme}
    (member : l ∈ (rules.lines lexemes).flatMap LogicalLine.lexemes) : l ∈ lexemes :=
  (linesFrom_sublist rules {} lexemes).subset member

theorem apply_split (placed : Placed P lexemes) (applied : layout.apply aliases lexemes = .ok stream) :
    ∃ front last, stream = front ++ last ∧ (∀ m ∈ front, ∃ l ∈ lexemes, l.Beside m) ∧ Lexeme.Forward front ∧
      ∀ m ∈ last, ∃ text, m = Lexeme.marker text (Lexeme.endOf lexemes) := by
  have same : ∀ m ∈ lexemes, ∃ l ∈ lexemes, l.Beside m := fun m member => ⟨m, member, .self⟩
  cases layout with
  | identity =>
    cases applied
    exact ⟨lexemes, [], (List.append_nil lexemes).symm, same, placed.forward, List.forall_mem_nil _⟩
  | endMarker =>
    cases applied
    exact ⟨lexemes, _, rfl, same, placed.forward, List.forall_mem_singleton.2 ⟨_, rfl⟩⟩
  | indentation rules =>
    obtain ⟨marked, blocks, done, rfl⟩ := Indentation.apply_parts applied
    have sublist := Indentation.linesFrom_sublist rules {} lexemes
    refine ⟨marked, _, List.append_assoc _ _ _, ?_, ?_, ?_⟩
    · intro m member
      obtain ⟨l, known, near⟩ := Indentation.mark_beside done m member
      exact ⟨l, Indentation.mem_lines known, near⟩
    · apply Indentation.mark_forward (placed.forward.sublist sublist) _ done
      exact fun l member => placed.grows l (Indentation.mem_lines member)
    · rw [List.forall_mem_append, List.forall_mem_singleton]
      exact ⟨fun m member => ⟨_, List.eq_of_mem_replicate member⟩, ⟨_, rfl⟩⟩

theorem apply_streamed (placed : Placed P lexemes) (start : P Place.start)
    (applied : layout.apply aliases lexemes = .ok stream) : Streamed P stream := by
  obtain ⟨front, last, rfl, beside, forward, closing⟩ := apply_split placed applied
  exact placed.streamed start beside forward closing

theorem apply_forward (placed : Placed P lexemes) (applied : layout.apply aliases lexemes = .ok stream) :
    Lexeme.Forward stream := by
  obtain ⟨front, last, rfl, beside, forward, closing⟩ := apply_split placed applied
  refine Lexeme.forward_append.2 ⟨forward, ?_, fun a memberA b memberB => ?_⟩
  · apply List.pairwise_of_forall_mem_list
    intro a memberA b memberB
    obtain ⟨text, rfl⟩ := closing a memberA
    obtain ⟨text', rfl⟩ := closing b memberB
    exact Nat.le_refl _
  · obtain ⟨text, rfl⟩ := closing b memberB
    exact (placed.within beside a memberA).2

theorem apply_refused (placed : Placed P lexemes) {e : LexError}
    (refused : layout.apply aliases lexemes = .error e) : ∃ p fault, P p ∧ e = LexError.atPlace p fault := by
  cases layout with
  | identity => cases refused
  | endMarker => cases refused
  | indentation rules =>
    change rules.apply aliases lexemes = _ at refused
    unfold Indentation.apply at refused
    cases done : rules.mark aliases [] (rules.lines lexemes) with
    | ok result => simp [done, bind, Except.bind] at refused
    | error e' =>
      have same : e' = e := by simpa [done, bind, Except.bind] using refused
      rw [same] at done
      obtain ⟨line, member, p, fault, rfl, tab | first⟩ := Indentation.mark_refused done
      · rcases Indentation.linesFrom_tab rules {} lexemes line member p tab with none | ⟨l, known, rfl⟩
        · cases none
        · exact ⟨_, fault, placed.start l known, rfl⟩
      · refine ⟨p, fault, ?_, rfl⟩
        rw [first]
        apply placed.start
        exact Indentation.mem_lines (List.mem_flatMap.2 ⟨line, member, List.mem_cons_self⟩)

theorem apply_ended (real : ∀ l ∈ lexemes, l.synthetic = false) (ends : layout ≠ .identity)
    (distinct : aliases.endOfInput ∉ [aliases.indent, aliases.dedent, aliases.newline])
    (applied : layout.apply aliases lexemes = .ok stream) : Lexeme.Ended aliases stream := by
  cases layout with
  | identity => exact absurd rfl ends
  | endMarker =>
    cases applied
    refine ⟨lexemes, _, rfl, fun l member marker => ?_⟩
    rw [real l member] at marker
    cases marker
  | indentation rules =>
    obtain ⟨marked, blocks, done, rfl⟩ := Indentation.apply_parts applied
    refine ⟨_, _, rfl, ?_⟩
    rw [List.forall_mem_append]
    refine ⟨Indentation.mark_unended distinct (fun l member => real l (Indentation.mem_lines member)) done, ?_⟩
    intro m member _ same
    rw [List.eq_of_mem_replicate member] at same
    have dedent : aliases.dedent = aliases.endOfInput := same
    exact distinct (by simp [dedent])

theorem mem_of_apply (applied : layout.apply aliases lexemes = .ok stream) {m : Lexeme} (member : m ∈ stream)
    (real : m.synthetic = false) : m ∈ lexemes := by
  have unmarked {text : String} {place : Place} (same : m = Lexeme.marker text place) : False := by
    rw [same] at real
    cases real
  cases layout with
  | identity =>
    cases applied
    exact member
  | endMarker =>
    cases applied
    rcases List.mem_append.1 member with own | last
    · exact own
    · exact (unmarked (List.mem_singleton.1 last)).elim
  | indentation rules =>
    obtain ⟨marked, blocks, done, rfl⟩ := Indentation.apply_parts applied
    rcases List.mem_append.1 member with front | last
    · rcases List.mem_append.1 front with inLines | closing
      · obtain ⟨l, known, near⟩ := Indentation.mark_beside done m inLines
        cases near with
        | self => exact Indentation.mem_lines known
        | start text => exact (unmarked rfl).elim
        | finish text => exact (unmarked rfl).elim
      · exact (unmarked (List.eq_of_mem_replicate closing)).elim
    · exact (unmarked (List.mem_singleton.1 last)).elim

end Layout

end ScriptKernel
