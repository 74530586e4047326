import ScriptKernel.Proofs.Lumen.Progress
import ScriptKernel.Proofs.Parse.InputEnd

/-!
Lumen's rules tell of the end of the input. Lines end with markers, which no
expression reads, so that behind an expression the input is not used up; what
is raised there without a look at the cursor is not raised at the end.
-/

namespace ScriptKernel.Lumen

open ScriptKernel.Parser (Tells)
open ScriptKernel.Grammar (NestedTells)

/-- Streams in which blanks do not stand before the end either. -/
structure LineBounded (ctx : Context) (base : Rest) : Prop extends ctx.Bounded base where
  blanks : ∀ rest, rest <:+ base → ctx.Open rest → ctx.Open (ctx.skipSpace rest)

variable {ctx : Context} {base rest : Rest} {nested : Nested}

/-- Rules for expressions that tell of the end and do not reach it. -/
abbrev Closed (ctx : Context) (base : Rest) {α : Type} (p : Parser α) (rest : Rest) : Prop :=
  Tells ctx base ctx.Open p rest

/-- Rules for statements that tell of the end. -/
abbrev Telling (ctx : Context) (base : Rest) {α : Type} (p : Parser α) (rest : Rest) : Prop :=
  Tells ctx base (fun _ => True) p rest

abbrev TellingParts (ctx : Context) (base : Rest) (nested : Nested) : Prop :=
  NestedTells ctx base ctx.Open nested

theorem sight_of_atEnd (ended : ctx.atEnd rest = true) : sight ctx rest = .endOfInput := by
  rw [sight, Context.sight_of_atEnd ended]

theorem closed_space (bounded : LineBounded ctx base) {α : Type} {f : Unit → Parser α} {P : Rest → Prop}
    (started : ctx.Open rest) (next : ctx.Open (ctx.skipSpace rest) → Tells ctx base P (f ()) (ctx.skipSpace rest)) :
    Tells ctx base P (Parser.skipSpace >>= f) rest :=
  fun within => Tells.space bounded.toBounded (next (bounded.blanks rest within started)) within

theorem arguments_closed (bounded : ctx.Bounded base) (parts : TellingParts ctx base nested) {close : String}
    (plain : close ≠ "\n") :
    Closed ctx base (arguments nested close) rest :=
  Tells.list bounded (by decide) plain fun _ rest => (parts.expr lowest rest).anywhere

theorem endStatement_tells (bounded : ctx.Bounded base) : Telling ctx base endStatement rest := by
  apply Tells.space bounded
  intro within
  dsimp only
  split
  · exact ⟨within, trivial⟩
  · exact fun ended => Or.inl (by rw [sight_of_atEnd ended]; rfl)

theorem block_tells (bounded : ctx.Bounded base) (parts : TellingParts ctx base nested) :
    Telling ctx base (block nested) rest := by
  apply Tells.space bounded
  apply Tells.isAt
  apply Tells.optionally
  case step =>
    intro _ more
    apply (Tells.tail _).bind
    intro _ reached _ _
    exact Tells.space bounded (more _)
  intro rest
  apply Tells.look
  apply Tells.ite
  · intro _
    apply (parts.statement rest).bind
    exact fun statement reached _ _ => Tells.done _
  · intro _
    apply (Tells.tail rest).bind
    intro _ rest _ _
    apply Tells.look
    apply Tells.ite
    · intro _
      exact Tells.look (Tells.fail fun ended => Or.inl (by rw [sight_of_atEnd ended]; rfl))
    · intro _
      apply (Tells.tail rest).bind
      intro _ rest _ _
      apply (Grammar.block_tells bounded parts.statement _ rest).bind
      intro body reached _ _
      apply (Tells.tail reached).bind
      exact fun _ reached _ _ => Tells.done _

theorem numberRule_closed (bounded : ctx.Bounded base) (applies : numberRule.applies ctx rest = true) :
    Closed ctx base (numberRule.parse nested) rest := by
  apply (Tells.number bounded true applies).bind
  intro text reached _ started
  split
  · exact Tells.pure _ started
  · exact Tells.fail (Tells.never started)

theorem stringRule_closed (bounded : ctx.Bounded base) : Closed ctx base (stringRule.parse nested) rest := by
  apply (Tells.string bounded (by decide)).bind
  exact fun text reached _ started => Tells.pure _ started

theorem constantRule_closed (bounded : ctx.Bounded base) (applies : constantRule.applies ctx rest = true) :
    Closed ctx base (constantRule.parse nested) rest := by
  apply (Tells.anyKeyword bounded (by decide) applies).bind
  intro word reached _ started
  exact Tells.ite (fun _ => Tells.pure _ started) fun _ =>
    Tells.ite (fun _ => Tells.pure _ started) fun _ => Tells.pure _ started

theorem externRule_closed (bounded : LineBounded ctx base) (parts : TellingParts ctx base nested) :
    Closed ctx base (externRule.parse nested) rest := by
  have plain := bounded.toBounded
  apply (Tells.word rest).bind
  intro _ reached _ _
  apply Tells.space plain
  apply (Tells.expect plain (by decide)).bind
  intro _ reached _ started
  apply closed_space bounded started
  intro started
  apply Tells.isAt
  apply Tells.ite
  · exact fun _ => Tells.fail (Tells.never started)
  · intro _
    apply Tells.location
    apply (Tells.string plain (by decide)).bind
    intro selector reached _ started
    split
    · exact Tells.failAt (Tells.never started)
    · apply Tells.space plain
      apply Tells.isAt
      apply Tells.ite
      · intro _
        apply (Tells.tail _).bind
        intro _ reached _ _
        apply (arguments_closed plain parts (by decide)).bind
        exact fun args reached _ started => Tells.pure _ started
      · intro _
        apply (Tells.expect plain (by decide)).bind
        exact fun _ reached _ started => Tells.pure _ started

theorem operand_closed {α : Type} {lead : Parser α} (parts : TellingParts ctx base nested) (leads : Telling ctx base lead rest)
    {least : Precedence} {f : α → Expr → Expr} :
    Closed ctx base (do
      let op ← lead
      let right ← nested.expr least
      return f op right) rest := by
  apply leads.bind
  intro op reached _ _
  apply (parts.expr least reached).bind
  exact fun right reached _ started => Tells.pure _ started

theorem signed_closed (parts : TellingParts ctx base nested) {least : Precedence} {f : Lexeme → Expr → Expr} :
    Closed ctx base (do
      let op ← Parser.advance
      let right ← nested.expr least
      return f op right) rest :=
  operand_closed parts (Tells.tail rest)

theorem worded_closed (parts : TellingParts ctx base nested) {least : Precedence} {f : Expr → Expr} :
    Closed ctx base (do
      let _ ← Parser.word
      let right ← nested.expr least
      return f right) rest :=
  operand_closed parts (Tells.word rest) (f := fun _ => f)

theorem groupRule_closed (bounded : ctx.Bounded base) (parts : TellingParts ctx base nested) :
    Closed ctx base (groupRule.parse nested) rest := by
  apply (Tells.tail rest).bind
  intro _ reached _ _
  apply (parts.expr _ reached).bind
  intro x reached _ _
  apply Tells.space bounded
  apply (Tells.expect bounded (by decide)).bind
  exact fun _ reached _ started => Tells.pure _ started

theorem arrayRule_closed (bounded : ctx.Bounded base) (parts : TellingParts ctx base nested) :
    Closed ctx base (arrayRule.parse nested) rest := by
  apply (Tells.tail rest).bind
  intro _ reached _ _
  apply (arguments_closed bounded parts (by decide)).bind
  exact fun items reached _ started => Tells.pure _ started

theorem variableRule_closed (bounded : ctx.Bounded base) : Closed ctx base (variableRule.parse nested) rest := by
  apply (Tells.name bounded reserved).bind
  exact fun text reached _ started => Tells.pure _ started

theorem compareRule_closed (bounded : LineBounded ctx base) (parts : TellingParts ctx base nested) (left : Expr) :
    Closed ctx base (compareRule.parse nested left) rest := by
  apply (Tells.tail rest).bind
  intro op reached _ _
  apply (parts.expr _ reached).bind
  intro right reached _ started
  apply closed_space bounded started
  intro started
  apply Tells.look
  apply Tells.ite
  · exact fun _ => Tells.fail (Tells.never started)
  · exact fun _ => Tells.pure _ started

theorem callRule_closed (bounded : ctx.Bounded base) (parts : TellingParts ctx base nested) (left : Expr) :
    Closed ctx base (callRule.parse nested left) rest := by
  apply (Tells.tail rest).bind
  intro _ reached _ _
  apply (arguments_closed bounded parts (by decide)).bind
  exact fun args reached _ started => Tells.pure _ started

theorem indexRule_closed (bounded : ctx.Bounded base) (parts : TellingParts ctx base nested) (left : Expr) :
    Closed ctx base (indexRule.parse nested left) rest := by
  apply (Tells.tail rest).bind
  intro _ reached _ _
  apply (parts.expr _ reached).bind
  intro position reached _ _
  apply Tells.space bounded
  apply (Tells.expect bounded (by decide)).bind
  exact fun _ reached _ started => Tells.pure _ started

theorem memoizationRule_tells (bounded : ctx.Bounded base) : Telling ctx base (memoizationRule.parse nested) rest := by
  apply (Tells.word rest).bind
  intro _ reached _ _
  apply Tells.space bounded
  apply (Tells.tail _).bind
  intro _ reached _ _
  apply Tells.space bounded
  apply Tells.look
  apply Tells.ite
  · intro _
    apply (Tells.word _).bind
    intro word reached _ _
    apply (endStatement_tells bounded).bind
    exact fun _ reached _ _ => Tells.done _
  · intro _
    exact Tells.look (Tells.fail fun ended => Or.inl (by rw [sight_of_atEnd ended]; rfl))

theorem letRule_tells (bounded : ctx.Bounded base) (parts : TellingParts ctx base nested) :
    Telling ctx base (letRule.parse nested) rest := by
  apply (Tells.word rest).bind
  intro _ reached _ _
  apply Tells.space bounded
  apply Tells.look
  apply Tells.optionally
  case step =>
    intro _ more
    apply (Tells.word _).bind
    intro _ reached _ _
    exact Tells.space bounded (more _)
  intro rest
  apply (Tells.name bounded reserved).bind
  intro target reached _ _
  apply Tells.space bounded
  apply Tells.isAt
  apply Tells.optionally
  case step =>
    intro _ more
    apply (Tells.tail _).bind
    intro _ reached _ _
    apply Tells.space bounded
    apply (Tells.name bounded reserved).bind
    intro _ reached _ _
    exact Tells.space bounded (more _)
  intro rest
  apply (Tells.expect bounded (by decide)).bind
  intro _ reached _ _
  apply (parts.expr _ reached).bind
  intro x reached _ _
  apply (endStatement_tells bounded).bind
  exact fun _ reached _ _ => Tells.done _

theorem beforeBranch_tells {α : Type} {p : Parser α} {P : Rest → Prop}
    (next : Tells ctx base P p (beforeBranch ctx rest)) :
    Tells ctx base P (fun ctx rest => p ctx (beforeBranch ctx rest)) rest :=
  fun within => next ((List.dropWhile_suffix _).trans within)

theorem branches_tells (bounded : ctx.Bounded base) (parts : TellingParts ctx base nested) (fuel : Nat) (rest : Rest) :
    Telling ctx base (branches nested fuel) rest := by
  induction fuel generalizing rest with
  | zero => exact Tells.fail fun _ => Or.inr rfl
  | succ fuel ih =>
    apply (Tells.word rest).bind
    intro _ reached _ _
    apply (parts.expr _ reached).bind
    intro test reached _ _
    apply (block_tells bounded parts).bind
    intro yes reached _ _
    apply Tells.look
    apply Tells.ite
    · intro _
      apply (beforeBranch_tells (ih _)).bind
      exact fun no reached _ _ => Tells.done _
    intro _
    apply Tells.look
    apply Tells.ite
    · intro _
      have past : Telling ctx base (fun _ rest => EStateM.Result.ok () rest.afterWord : Parser Unit)
          (beforeBranch ctx reached) := fun within => ⟨(List.dropWhile_suffix _).trans within, trivial⟩
      apply (beforeBranch_tells past).bind
      intro _ reached _ _
      apply Tells.space bounded
      apply Tells.look
      apply Tells.ite
      · intro _
        apply (ih _).bind
        exact fun no reached _ _ => Tells.done _
      · intro _
        apply (block_tells bounded parts).bind
        exact fun no reached _ _ => Tells.done _
    · exact fun _ => Tells.done _

theorem ifRule_tells (bounded : ctx.Bounded base) (parts : TellingParts ctx base nested) :
    Telling ctx base (ifRule.parse nested) rest := by
  have tells := branches_tells bounded parts (rest.length + 1) rest
  intro within
  exact tells within

theorem whileRule_tells (bounded : ctx.Bounded base) (parts : TellingParts ctx base nested) :
    Telling ctx base (whileRule.parse nested) rest := by
  apply (Tells.word rest).bind
  intro word reached _ _
  apply (parts.expr _ reached).bind
  intro test reached _ _
  apply (block_tells bounded parts).bind
  exact fun body reached _ _ => Tells.done _

theorem forRule_tells (bounded : ctx.Bounded base) (parts : TellingParts ctx base nested) :
    Telling ctx base (forRule.parse nested) rest := by
  apply (Tells.word rest).bind
  intro _ reached _ _
  apply Tells.space bounded
  apply (Tells.name bounded reserved).bind
  intro target reached _ _
  apply Tells.space bounded
  apply (Tells.expectKeyword bounded (by decide)).bind
  intro _ reached _ _
  apply (parts.expr _ reached).bind
  intro items reached _ _
  apply (block_tells bounded parts).bind
  exact fun body reached _ _ => Tells.done _

theorem wordRule_tells (bounded : ctx.Bounded base) (keyword : String) (statement : Stmt) :
    Telling ctx base ((wordRule keyword statement).parse nested) rest := by
  apply (Tells.word rest).bind
  intro _ reached _ _
  apply (endStatement_tells bounded).bind
  exact fun _ reached _ _ => Tells.done _

theorem returnRule_tells (bounded : ctx.Bounded base) (parts : TellingParts ctx base nested) :
    Telling ctx base (returnRule.parse nested) rest := by
  apply (Tells.word rest).bind
  intro _ reached _ _
  apply Tells.space bounded
  refine Tells.bind (P := fun _ => True) ?_ ?_
  · -- The end is looked for, not consumed.
    intro within
    dsimp only
    split
    · exact ⟨within, trivial⟩
    · exact ⟨within, trivial⟩
  intro ends reached _ _
  apply Tells.ite
  · exact fun _ => Tells.done _
  · intro _
    apply (parts.expr _ reached).bind
    intro x reached _ _
    apply (endStatement_tells bounded).bind
    exact fun _ reached _ _ => Tells.done _

theorem parameter_tells (bounded : ctx.Bounded base) (known : List String) : Telling ctx base (parameter known) rest := by
  apply Tells.location
  apply (Tells.name bounded reserved).bind
  intro param reached _ started
  apply Tells.ite
  · exact fun _ => Tells.failAt (Tells.never started)
  · exact fun _ => Tells.done _

theorem fnRule_tells (bounded : ctx.Bounded base) (parts : TellingParts ctx base nested) :
    Telling ctx base (fnRule.parse nested) rest := by
  apply (Tells.word rest).bind
  intro _ reached _ _
  apply Tells.space bounded
  apply (Tells.name bounded reserved).bind
  intro target reached _ _
  apply Tells.space bounded
  apply (Tells.expect bounded (by decide)).bind
  intro _ reached _ _
  apply (Tells.list bounded (by decide) (by decide) fun known _ => parameter_tells bounded known).bind
  intro params reached _ _
  apply (block_tells bounded parts).bind
  exact fun body reached _ _ => Tells.done _

theorem outputRule_tells (bounded : ctx.Bounded base) (parts : TellingParts ctx base nested) (word capability : String) :
    Telling ctx base ((outputRule word capability).parse nested) rest := by
  apply (Tells.word rest).bind
  intro _ reached _ _
  apply Tells.space bounded
  apply (Tells.tail _).bind
  intro _ reached _ _
  apply (arguments_closed bounded parts (by decide)).bind
  intro args reached _ _
  apply (endStatement_tells bounded).bind
  exact fun _ reached _ _ => Tells.done _

theorem pushRule_tells (bounded : ctx.Bounded base) (parts : TellingParts ctx base nested) :
    Telling ctx base (pushRule.parse nested) rest := by
  apply (Tells.word rest).bind
  intro _ reached _ _
  apply Tells.space bounded
  apply Tells.location
  apply (Tells.tail _).bind
  intro _ reached _ _
  apply (arguments_closed bounded parts (by decide)).bind
  intro args reached _ started
  split
  · apply (endStatement_tells bounded).bind
    exact fun _ reached _ _ => Tells.done _
  · exact Tells.failAt (Tells.never started)

theorem assignRule_tells (bounded : ctx.Bounded base) (parts : TellingParts ctx base nested) :
    Telling ctx base (assignRule.parse nested) rest := by
  apply Tells.location
  apply (parts.expr _ rest).bind
  intro x reached _ _
  apply Tells.space bounded
  apply Tells.isAt
  apply Tells.ite
  · intro _
    apply (endStatement_tells bounded).bind
    exact fun _ reached _ _ => Tells.done _
  · intro _
    apply (Tells.tail _).bind
    intro _ reached _ _
    apply (parts.expr _ reached).bind
    intro value reached _ started
    split
    · apply (endStatement_tells bounded).bind
      exact fun _ reached _ _ => Tells.done _
    · exact Tells.failAt (Tells.never started)

theorem operand_tells (bounded : LineBounded ctx base) (parts : TellingParts ctx base nested) :
    ∀ rule ∈ grammar.operands, ∀ rest, rule.applies ctx rest = true → Closed ctx base (rule.parse nested) rest := by
  have plain := bounded.toBounded
  intro rule member rest applies
  cases isOperand rule member with
  | number => exact numberRule_closed plain applies
  | string => exact stringRule_closed plain
  | constant => exact constantRule_closed plain applies
  | hostCall => exact externRule_closed bounded parts
  | not => exact worded_closed parts
  | negate => exact signed_closed parts (f := fun _ => .negate)
  | group => exact groupRule_closed plain parts
  | array => exact arrayRule_closed plain parts
  | var => exact variableRule_closed plain

theorem operator_tells (bounded : LineBounded ctx base) (parts : TellingParts ctx base nested) (left : Expr) :
    ∀ rule ∈ grammar.operators, ∀ rest, rule.applies ctx rest = true → Closed ctx base (rule.parse nested left) rest := by
  have plain := bounded.toBounded
  intro rule member rest applies
  cases isOperator rule member with
  | pipe => exact signed_closed parts (f := fun _ => piped left)
  | range => exact signed_closed parts (f := fun _ => .range left)
  | or | and => exact worded_closed parts
  | compare => exact compareRule_closed bounded parts left
  | sum | product | power => exact signed_closed parts
  | call => exact callRule_closed plain parts left
  | index => exact indexRule_closed plain parts left

theorem statement_tells (bounded : ctx.Bounded base) (parts : TellingParts ctx base nested) :
    ∀ rule ∈ grammar.statements, ∀ rest, rule.applies ctx rest = true → Telling ctx base (rule.parse nested) rest := by
  intro rule member rest applies
  cases isStatement rule member with
  | memoize => exact memoizationRule_tells bounded
  | define => exact letRule_tells bounded parts
  | cond => exact ifRule_tells bounded parts
  | whileLoop => exact whileRule_tells bounded parts
  | forEach => exact forRule_tells bounded parts
  | breakLoop => exact wordRule_tells bounded "break" .breakLoop
  | continueLoop => exact wordRule_tells bounded "continue" .continueLoop
  | returnWith => exact returnRule_tells bounded parts
  | declare => exact fnRule_tells bounded parts
  | print => exact outputRule_tells bounded parts "print" "print_native"
  | write => exact outputRule_tells bounded parts "write" "write_native"
  | push => exact pushRule_tells bounded parts
  | assign => exact assignRule_tells bounded parts

theorem grammar_telling (bounded : LineBounded ctx base) : grammar.Telling ctx base ctx.Open where
  space := bounded.blanks
  operand rule member _ parts rest applies := operand_tells bounded parts rule member rest applies
  operator rule member _ parts left rest applies := operator_tells bounded parts left rule member rest applies
  statement rule member _ parts rest applies := statement_tells bounded.toBounded parts rule member rest applies

end ScriptKernel.Lumen
