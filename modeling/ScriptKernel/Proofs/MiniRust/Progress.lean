import ScriptKernel.MiniRust.Grammar
import ScriptKernel.Proofs.Parse.Progress

/-!
MiniRust's rules make progress. Braces are lexemes like any others to its
layout, so that no books are kept: what counts is that a rule consumes
something wherever it applies, and that it asks for nested parts behind that.
-/

namespace ScriptKernel.MiniRust

open ScriptKernel.Walk (Moves)
open ScriptKernel.Grammar (ExprMoves StatementMoves)

structure Lenient (w : Walk) : Prop extends w.Sound where
  keeps : ∀ a b lexemes, w.books a b lexemes

variable {w : Walk} {room a b : Nat} {rest : Rest} {nested : Nested} {α : Type}

theorem advance_moves (lenient : Lenient w) {text : String} (here : rest.isAt text = true) :
    w.Moves room (w.Eats a b) Parser.advance rest :=
  Moves.advance here fun l _ => lenient.keeps a b [l]

theorem advanceAny_moves (lenient : Lenient w) {texts : List String} (here : rest.isAtAny texts = true) :
    w.Moves room (w.Eats a b) Parser.advance rest :=
  Moves.advanceAny here fun _ _ l _ => lenient.keeps a b [l]

theorem expect_moves (lenient : Lenient w) {texts : List String} :
    w.Moves room (w.Eats a b) (Parser.expect texts) rest :=
  Moves.expect fun _ _ l _ => lenient.keeps a b [l]

theorem list_moves (lenient : Lenient w) {item : List α → Parser α}
    (each : ∀ done rest, w.Moves room (w.books a a) (item done) rest) :
    w.Moves room (w.Eats a a) (Parser.list "," ")" item) rest :=
  Moves.list lenient.toSound each (fun l _ => lenient.keeps a a [l]) fun l _ => lenient.keeps a a [l]

theorem arguments_moves (lenient : Lenient w) (exprs : ExprMoves w room nested) :
    w.Moves room (w.Eats a a) (arguments nested) rest :=
  list_moves lenient fun _ rest => (exprs a lowest rest).loosen

theorem string_moves (lenient : Lenient w) : w.Moves room (w.Eats a a) (Parser.string "\"") rest :=
  Moves.string fun l body _ _ => lenient.keeps a a (l :: body)

theorem braced_moves (lenient : Lenient w) (statements : StatementMoves w room nested) :
    w.Moves (room + 1) (w.Eats a a) (block nested) rest := by
  have sound := lenient.toSound
  apply Moves.spaceEats sound
  apply (expect_moves lenient (b := a)).start sound
  intro _ rest _ _
  apply (Grammar.block_moves sound (statements a) _ rest).bind sound
  intro body reached parsed _
  apply (advance_moves lenient (Grammar.blockFrom_stops _ parsed)).loosen.bind sound
  exact fun _ reached _ _ => Moves.pure _ (sound.nil a)

theorem block_moves (lenient : Lenient w) (statements : StatementMoves w room nested) :
    w.Moves room (w.books a a) (block nested) rest :=
  (braced_moves lenient statements).loosen.mono (Nat.le_succ room)

theorem skipAngles_suffix (ctx : Context) (depth : Int) (rest : Rest) : skipAngles ctx depth rest <:+ rest := by
  fun_induction skipAngles ctx depth rest with
  | case1 => exact List.suffix_rfl
  | case2 => exact List.suffix_rfl
  | case3 depth l rest _ _ => exact List.suffix_cons l rest
  | case4 depth l rest _ _ _ ih => exact ih.trans (List.suffix_cons l rest)

theorem skipType_moves (lenient : Lenient w) : w.Moves room (w.books a a) skipType rest := by
  intro _
  obtain ⟨blanks, skipped, -⟩ := lenient.skipSpace a rest
  have word : Rest.afterWord ((w.ctx.skipSpace rest).dropWhile fun l => !l.synthetic && l.text == "&") <:+ rest := by
    have behind : w.ctx.skipSpace rest <:+ rest := ⟨blanks, skipped.symm⟩
    exact ((List.dropWhile_suffix _).trans (List.dropWhile_suffix _)).trans behind
  have reached (rest' : Rest) (suffix : rest' <:+ rest) :
      ∃ eaten, rest = eaten ++ rest' ∧ w.books a a eaten := by
    obtain ⟨eaten, split⟩ := suffix
    exact ⟨eaten, split.symm, lenient.keeps a a eaten⟩
  apply reached
  split
  · exact (skipAngles_suffix w.ctx 0 _).trans word
  · exact word

theorem word_of_isBang {keyword : String} (bang : isBang keyword rest = true) :
    rest.isKeyword keyword = true ∧ Rest.isAt "!" rest.afterWord = true := by
  simpa [isBang] using bang

theorem bangArguments_moves (lenient : Lenient w) (exprs : ExprMoves w room nested) {keyword : String}
    (known : keyword ≠ "") (bang : isBang keyword rest = true) :
    w.Moves (room + 1) (w.Eats a a) (bangArguments nested) rest := by
  have sound := lenient.toSound
  obtain ⟨here, sign⟩ := word_of_isBang bang
  apply (Moves.keyword sound known here).start sound
  intro _ reached taken _
  cases taken
  apply (advance_moves lenient (b := a) sign).loosen.bind sound
  intro _ reached _ _
  apply Moves.space sound
  apply (expect_moves lenient (b := a)).loosen.bind sound
  intro _ reached _ _
  apply (arguments_moves lenient exprs).loosen.bind sound
  intro args reached _ _
  split
  · exact Moves.pure _ (sound.nil a)
  · exact Moves.pure _ (sound.nil a)
  · exact Moves.pure _ (sound.nil a)
  · exact Moves.fail rfl

theorem intRule_moves (sound : w.Sound) (applies : intRule.applies w.ctx rest = true) :
    w.Moves room (w.Eats a a) (intRule.parse nested) rest := by
  apply (Moves.number sound false applies).lead sound
  intro text reached _
  apply Moves.ite
  · exact fun _ => Moves.pure _ (sound.nil a)
  · exact fun _ => Moves.fail rfl

theorem strRule_moves (lenient : Lenient w) : w.Moves room (w.Eats a a) (strRule.parse nested) rest := by
  apply (string_moves lenient).lead lenient.toSound
  exact fun text reached _ => Moves.pure _ (lenient.nil a)

theorem flagRule_moves (sound : w.Sound) (applies : flagRule.applies w.ctx rest = true) :
    w.Moves room (w.Eats a a) (flagRule.parse nested) rest := by
  apply (Moves.anyKeyword sound (by decide) applies).lead sound
  exact fun word reached _ => Moves.pure _ (sound.nil a)

theorem signed_moves (lenient : Lenient w) (exprs : ExprMoves w room nested) {texts : List String}
    (here : rest.isAtAny texts = true) {least : Precedence} {f : Lexeme → Expr → Expr} :
    w.Moves (room + 1) (w.Eats a a) (do
      let op ← Parser.advance
      let right ← nested.expr least
      return f op right) rest := by
  apply (advanceAny_moves lenient here).start lenient.toSound
  intro op reached _ _
  apply (exprs a least reached).loosen.bind lenient.toSound
  exact fun right reached _ _ => Moves.pure _ (lenient.nil a)

theorem sign_moves (lenient : Lenient w) (exprs : ExprMoves w room nested) {text : String}
    (here : rest.isAt text = true) {least : Precedence} {f : Expr → Expr} :
    w.Moves (room + 1) (w.Eats a a) (do
      let _ ← Parser.advance
      let right ← nested.expr least
      return f right) rest := by
  have any : rest.isAtAny [text] = true := by
    simpa [Rest.isAtAny] using here
  exact signed_moves lenient exprs (f := fun _ => f) any

theorem groupRule_moves (lenient : Lenient w) (exprs : ExprMoves w room nested)
    (applies : groupRule.applies w.ctx rest = true) :
    w.Moves (room + 1) (w.Eats a a) (groupRule.parse nested) rest := by
  have sound := lenient.toSound
  apply (advance_moves lenient (b := a) applies).start sound
  intro _ reached _ _
  apply (exprs a _ reached).loosen.bind sound
  intro x reached _ _
  apply Moves.space sound
  apply (expect_moves lenient).loosen.bind sound
  exact fun _ reached _ _ => Moves.pure _ (sound.nil a)

theorem variableRule_moves (sound : w.Sound) : w.Moves room (w.Eats a a) (variableRule.parse nested) rest := by
  apply (Moves.name sound reserved).lead sound
  exact fun text reached _ => Moves.pure _ (sound.nil a)

theorem callRule_moves (lenient : Lenient w) (exprs : ExprMoves w room nested) (left : Expr)
    (applies : callRule.applies w.ctx rest = true) :
    w.Moves (room + 1) (w.Eats a a) (callRule.parse nested left) rest := by
  apply (advance_moves lenient (b := a) applies).start lenient.toSound
  intro _ reached _ _
  apply (arguments_moves lenient exprs).loosen.bind lenient.toSound
  exact fun args reached _ _ => Moves.pure _ (lenient.nil a)

theorem letRule_moves (lenient : Lenient w) (exprs : ExprMoves w room nested)
    (applies : letRule.applies w.ctx rest = true) :
    w.Moves (room + 1) (w.Eats a a) (letRule.parse nested) rest := by
  have sound := lenient.toSound
  apply (Moves.keyword sound (by decide) applies).start sound
  intro _ reached _ _
  apply Moves.space sound
  apply Moves.look
  apply Moves.optionally
  case step =>
    intro _ more
    apply (Moves.word sound a).bind sound
    intro _ reached _ _
    exact Moves.space sound (more _)
  intro rest
  apply (Moves.name sound reserved).loosen.bind sound
  intro target reached _ _
  apply Moves.space sound
  apply Moves.isAt
  apply Moves.optionally
  case step =>
    intro colon more
    apply (advance_moves lenient (b := a) colon).loosen.bind sound
    intro _ reached _ _
    apply (skipType_moves lenient).bind sound
    intro _ reached _ _
    exact Moves.space sound (more _)
  intro rest
  apply (expect_moves lenient (b := a)).loosen.bind sound
  intro _ reached _ _
  apply (exprs a _ reached).loosen.bind sound
  exact fun x reached _ _ => Moves.pure _ (sound.nil a)

theorem parameter_moves (lenient : Lenient w) (known : List String) :
    w.Moves room (w.books a a) (parameter known) rest := by
  have sound := lenient.toSound
  apply Moves.location
  intro inside
  apply (Moves.name sound reserved).loosen.bind sound
  intro param reached _ _
  apply Moves.ite
  · exact fun _ => Moves.failAt inside rfl
  · intro _
    apply Moves.space sound
    apply Moves.isAt
    apply Moves.optionally
    case step =>
      intro colon more
      apply (advance_moves lenient (b := a) colon).loosen.bind sound
      intro _ reached _ _
      apply (skipType_moves lenient).bind sound
      exact fun _ reached _ _ => more reached
    exact fun rest => Moves.pure _ (sound.nil a)

theorem fnRule_moves (lenient : Lenient w) (statements : StatementMoves w room nested)
    (applies : fnRule.applies w.ctx rest = true) :
    w.Moves (room + 1) (w.Eats a a) (fnRule.parse nested) rest := by
  have sound := lenient.toSound
  apply (Moves.keyword sound (by decide) applies).start sound
  intro _ reached _ _
  apply Moves.space sound
  apply (Moves.name sound reserved).loosen.bind sound
  intro target reached _ _
  apply Moves.space sound
  apply (expect_moves lenient (b := a)).loosen.bind sound
  intro _ reached _ _
  apply (list_moves lenient fun known _ => parameter_moves lenient known).loosen.bind sound
  intro params reached _ _
  apply Moves.space sound
  apply Moves.isAt
  apply Moves.optionally
  case step =>
    intro arrow more
    apply (advance_moves lenient (b := a) arrow).loosen.bind sound
    intro _ reached _ _
    apply (skipType_moves lenient).bind sound
    exact fun _ reached _ _ => more reached
  intro rest
  apply (block_moves lenient statements).bind sound
  exact fun body reached _ _ => Moves.pure _ (sound.nil a)

theorem branches_moves (lenient : Lenient w) (exprs : ExprMoves w room nested)
    (statements : StatementMoves w room nested) (fuel : Nat) (fueled : rest.length < fuel)
    (applies : rest.isKeyword "if" = true) : w.Moves (room + 1) (w.Eats a a) (branches nested fuel) rest := by
  have sound := lenient.toSound
  induction fuel generalizing rest with
  | zero => exact absurd fueled (Nat.not_lt_zero _)
  | succ fuel ih =>
    apply (Moves.keyword sound (by decide) applies).start sound
    intro _ rest₁ _ fewer
    apply (exprs a _ rest₁).loosen.bind sound
    intro test rest₂ _ fewer₁
    apply (block_moves lenient statements).bind sound
    intro yes rest₃ _ fewer₂
    apply Moves.look
    apply Moves.ite
    · exact fun _ => Moves.pure _ (sound.nil a)
    intro _
    apply (Moves.skipSpace sound a).bind sound
    intro _ rest₄ _ fewer₃
    apply (Moves.word sound a).bind sound
    intro _ rest₅ _ fewer₄
    apply (Moves.skipSpace sound a).bind sound
    intro _ rest₆ _ fewer₅
    apply Moves.look
    apply Moves.ite
    · intro again
      have later : w.Moves room (w.books a a) (branches nested fuel) rest₆ :=
        (ih (by omega) again).loosen.mono (Nat.le_succ room)
      apply later.bind sound
      exact fun no reached _ _ => Moves.pure _ (sound.nil a)
    · intro _
      apply (block_moves lenient statements).bind sound
      exact fun no reached _ _ => Moves.pure _ (sound.nil a)

theorem ifRule_moves (lenient : Lenient w) (exprs : ExprMoves w room nested)
    (statements : StatementMoves w room nested) (applies : ifRule.applies w.ctx rest = true) :
    w.Moves (room + 1) (w.Eats a a) (ifRule.parse nested) rest := by
  have moves : w.Moves (room + 1) (w.Eats a a) (branches nested (rest.length + 1)) rest :=
    branches_moves lenient exprs statements (rest.length + 1) (Nat.lt_succ_self _) applies
  intro within
  exact moves within

theorem whileRule_moves (lenient : Lenient w) (exprs : ExprMoves w room nested)
    (statements : StatementMoves w room nested) (applies : whileRule.applies w.ctx rest = true) :
    w.Moves (room + 1) (w.Eats a a) (whileRule.parse nested) rest := by
  have sound := lenient.toSound
  apply (Moves.keyword sound (by decide) applies).start sound
  intro _ reached _ _
  apply (exprs a _ reached).loosen.bind sound
  intro test reached _ _
  apply (block_moves lenient statements).bind sound
  exact fun body reached _ _ => Moves.pure _ (sound.nil a)

theorem loopRule_moves (lenient : Lenient w) (statements : StatementMoves w room nested)
    (applies : loopRule.applies w.ctx rest = true) :
    w.Moves (room + 1) (w.Eats a a) (loopRule.parse nested) rest := by
  have sound := lenient.toSound
  apply (Moves.keyword sound (by decide) applies).start sound
  intro _ reached _ _
  apply (block_moves lenient statements).bind sound
  exact fun body reached _ _ => Moves.pure _ (sound.nil a)

theorem wordRule_moves (sound : w.Sound) {keyword : String} {statement : Stmt} (known : keyword ≠ "")
    (applies : (wordRule keyword statement).applies w.ctx rest = true) :
    w.Moves room (w.Eats a a) ((wordRule keyword statement).parse nested) rest := by
  apply (Moves.keyword sound known applies).lead sound
  exact fun _ reached _ => Moves.pure _ (sound.nil a)

theorem returnRule_moves (sound : w.Sound) (exprs : ExprMoves w room nested)
    (applies : returnRule.applies w.ctx rest = true) :
    w.Moves (room + 1) (w.Eats a a) (returnRule.parse nested) rest := by
  apply (Moves.keyword sound (by decide) applies).start sound
  intro _ reached _ _
  apply Moves.space sound
  apply Moves.look
  apply Moves.ite
  · exact fun _ => Moves.pure _ (sound.nil a)
  · intro _
    apply (exprs a _ _).loosen.bind sound
    exact fun x reached _ _ => Moves.pure _ (sound.nil a)

theorem printBangRule_moves (lenient : Lenient w) (exprs : ExprMoves w room nested) {word capability : String}
    (known : word ≠ "") (applies : (printBangRule word capability).applies w.ctx rest = true) :
    w.Moves (room + 1) (w.Eats a a) ((printBangRule word capability).parse nested) rest := by
  apply (bangArguments_moves lenient exprs known applies).start lenient.toSound
  exact fun x reached _ _ => Moves.pure _ (lenient.nil a)

theorem printRule_moves (lenient : Lenient w) (exprs : ExprMoves w room nested)
    (applies : printRule.applies w.ctx rest = true) :
    w.Moves (room + 1) (w.Eats a a) (printRule.parse nested) rest := by
  have sound := lenient.toSound
  have parts : rest.isKeyword "print" = true ∧ Rest.isAt "(" (w.ctx.skipSpace rest.afterWord) = true := by
    simpa [printRule] using applies
  apply (Moves.keyword sound (by decide) parts.1).start sound
  intro _ reached taken _
  cases taken
  apply Moves.space sound
  apply (advance_moves lenient (b := a) parts.2).loosen.bind sound
  intro _ reached _ _
  apply (arguments_moves lenient exprs).loosen.bind sound
  intro args reached _ _
  split
  · exact Moves.pure _ (sound.nil a)
  · exact Moves.fail rfl

theorem blockRule_moves (lenient : Lenient w) (statements : StatementMoves w room nested) :
    w.Moves (room + 1) (w.Eats a a) (blockRule.parse nested) rest := by
  apply (braced_moves lenient statements).start lenient.toSound
  exact fun body reached _ _ => Moves.pure _ (lenient.nil a)

theorem assignRule_moves (lenient : Lenient w) (exprs : ExprMoves w room nested) :
    w.Moves room (w.Eats a a) (assignRule.parse nested) rest := by
  have sound := lenient.toSound
  apply Moves.location
  intro inside
  apply (exprs a _ rest).lead sound
  intro x reached _
  apply Moves.space sound
  apply Moves.look
  split
  · exact Moves.pure _ (sound.nil a)
  next op target assigns =>
    have advanced : w.Moves room (w.books a a) Parser.advance (w.ctx.skipSpace reached) := by
      intro _
      cases w.ctx.skipSpace reached with
      | nil => exact ⟨[], rfl, lenient.keeps a a []⟩
      | cons l rest => exact ⟨[l], rfl, lenient.keeps a a [l]⟩
    apply advanced.bind sound
    intro _ reached _ _
    apply (exprs a _ reached).loosen.bind sound
    intro value reached _ _
    split
    · exact Moves.pure _ (sound.nil a)
    · exact Moves.pure _ (sound.nil a)
  · exact Moves.failAt inside rfl

theorem operand_moves (lenient : Lenient w) (exprs : ExprMoves w room nested) :
    ∀ rule ∈ grammar.operands, ∀ rest, rule.applies w.ctx rest = true →
      w.Moves (room + 1) (w.Eats a a) (rule.parse nested) rest := by
  have sound := lenient.toSound
  intro rule member rest applies
  cases isOperand rule member with
  | int => exact intRule_moves sound applies
  | str => exact strRule_moves lenient
  | flag => exact flagRule_moves sound applies
  | format => exact bangArguments_moves lenient exprs (by decide) applies
  | negate | not => exact sign_moves lenient exprs applies
  | group => exact groupRule_moves lenient exprs applies
  | var => exact variableRule_moves sound

theorem operator_moves (lenient : Lenient w) (exprs : ExprMoves w room nested) (left : Expr) :
    ∀ rule ∈ grammar.operators, ∀ rest, rule.applies w.ctx rest = true →
      w.Moves (room + 1) (w.Eats a a) (rule.parse nested left) rest := by
  intro rule member rest applies
  cases isOperator rule member with
  | or | and => exact sign_moves lenient exprs applies
  | compare | sum | product => exact signed_moves lenient exprs applies
  | call => exact callRule_moves lenient exprs left applies

/-- The parts behind the first lexeme of a statement have room for one lexeme
less than the statement. -/
theorem statement_moves (lenient : Lenient w) {later : Nat} (le : room ≤ later + 1)
    (exprs : ExprMoves w room nested) (inner : ExprMoves w later nested) (statements : StatementMoves w later nested) :
    ∀ rule ∈ grammar.statements, ∀ rest, rule.applies w.ctx rest = true →
      w.Moves room (w.Eats a a) (rule.parse nested) rest := by
  have sound := lenient.toSound
  intro rule member rest applies
  cases isStatement rule member with
  | define => exact (letRule_moves lenient inner applies).mono le
  | declare => exact (fnRule_moves lenient statements applies).mono le
  | cond => exact (ifRule_moves lenient inner statements applies).mono le
  | whileLoop => exact (whileRule_moves lenient inner statements applies).mono le
  | endless => exact (loopRule_moves lenient statements applies).mono le
  | breakLoop | continueLoop => exact wordRule_moves sound (by decide) applies
  | returnWith => exact (returnRule_moves sound inner applies).mono le
  | println | printBang => exact (printBangRule_moves lenient inner (by decide) applies).mono le
  | print => exact (printRule_moves lenient inner applies).mono le
  | block => exact (blockRule_moves lenient statements).mono le
  | assign => exact assignRule_moves lenient exprs

theorem grammar_moving (lenient : Lenient w) : grammar.Moving w where
  operand rule member nested exprs statements parts a rest applies :=
    operand_moves lenient parts.expr rule member rest applies
  operator rule member nested exprs statements parts a left rest applies :=
    operator_moves lenient parts.expr left rule member rest applies
  statement rule member nested room statements parts le a rest applies := by
    have inner : ExprMoves w (room - 1) nested :=
      fun a least rest => (parts.expr a least rest).mono (Nat.sub_le room 1)
    have block : StatementMoves w (room - 1) nested :=
      fun a rest => (parts.statement a rest).mono (by omega)
    exact statement_moves lenient (by omega) parts.expr inner block rule member rest applies

end ScriptKernel.MiniRust
