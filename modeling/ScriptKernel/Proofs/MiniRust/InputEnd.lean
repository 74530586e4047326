import ScriptKernel.Proofs.MiniRust.Progress
import ScriptKernel.Proofs.Parse.InputEnd

/-!
MiniRust's rules tell of the end of the input. Line ends are blanks to them, so
that a rule may stand at the end wherever it has skipped blanks; the faults that
do not look at the cursor are raised directly behind what was just read.
-/

namespace ScriptKernel.MiniRust

open ScriptKernel.Parser (Tells)
open ScriptKernel.Grammar (NestedTells)

variable {ctx : Context} {base rest : Rest} {nested : Nested}

abbrev Telling (ctx : Context) (base : Rest) {α : Type} (p : Parser α) (rest : Rest) : Prop :=
  Tells ctx base (fun _ => True) p rest

abbrev TellingParts (ctx : Context) (base : Rest) (nested : Nested) : Prop :=
  NestedTells ctx base (fun _ => True) nested

theorem arguments_tells (bounded : ctx.Bounded base) (parts : TellingParts ctx base nested) :
    Tells ctx base ctx.Open (arguments nested) rest :=
  Tells.list bounded (by decide) (by decide) fun _ => parts.expr lowest

theorem block_tells (bounded : ctx.Bounded base) (parts : TellingParts ctx base nested) :
    Telling ctx base (block nested) rest := by
  apply Tells.space bounded
  apply (Tells.expect bounded (by decide)).bind
  intro _ reached _ _
  apply (Grammar.block_tells bounded parts.statement _ reached).bind
  intro body reached _ _
  apply (Tells.tail reached).bind
  exact fun _ reached _ _ => Tells.done body

theorem skipType_tells (bounded : ctx.Bounded base) : Telling ctx base skipType rest := by
  intro within
  have word : Rest.afterWord ((ctx.skipSpace rest).dropWhile fun l => !l.synthetic && l.text == "&") <:+ base :=
    (((List.dropWhile_suffix _).trans (List.dropWhile_suffix _)).trans (bounded.space rest)).trans within
  refine ⟨?_, trivial⟩
  split
  · exact (skipAngles_suffix ctx 0 _).trans word
  · exact word

theorem bangArguments_tells (bounded : ctx.Bounded base) (parts : TellingParts ctx base nested) :
    Telling ctx base (bangArguments nested) rest := by
  apply (Tells.word rest).bind
  intro _ reached _ _
  apply (Tells.tail reached).bind
  intro _ reached _ _
  apply Tells.space bounded
  apply (Tells.expect bounded (by decide)).bind
  intro _ reached _ _
  apply (arguments_tells bounded parts).bind
  intro args reached _ started
  split
  · exact Tells.done _
  · exact Tells.done _
  · exact Tells.done _
  · exact Tells.fail (Tells.never started)

theorem intRule_tells (bounded : ctx.Bounded base) (applies : intRule.applies ctx rest = true) :
    Telling ctx base (intRule.parse nested) rest := by
  apply (Tells.number bounded false applies).bind
  intro text reached _ started
  exact Tells.ite (fun _ => Tells.done _) fun _ => Tells.fail (Tells.never started)

theorem strRule_tells (bounded : ctx.Bounded base) : Telling ctx base (strRule.parse nested) rest := by
  apply (Tells.string bounded (by decide)).bind
  exact fun text reached _ _ => Tells.done _

theorem flagRule_tells : Telling ctx base (flagRule.parse nested) rest := by
  apply (Tells.word rest).bind
  exact fun word reached _ _ => Tells.done _

theorem signed_tells (parts : TellingParts ctx base nested) {least : Precedence} {f : Lexeme → Expr → Expr} :
    Telling ctx base (do
      let op ← Parser.advance
      let right ← nested.expr least
      return f op right) rest := by
  apply (Tells.tail rest).bind
  intro op reached _ _
  apply (parts.expr least reached).bind
  exact fun right reached _ _ => Tells.done _

theorem groupRule_tells (bounded : ctx.Bounded base) (parts : TellingParts ctx base nested) :
    Telling ctx base (groupRule.parse nested) rest := by
  apply (Tells.tail rest).bind
  intro _ reached _ _
  apply (parts.expr _ reached).bind
  intro x reached _ _
  apply Tells.space bounded
  apply (Tells.expect bounded (by decide)).bind
  exact fun _ reached _ _ => Tells.done _

theorem variableRule_tells (bounded : ctx.Bounded base) : Telling ctx base (variableRule.parse nested) rest := by
  apply (Tells.name bounded reserved).bind
  exact fun text reached _ _ => Tells.done _

theorem callRule_tells (bounded : ctx.Bounded base) (parts : TellingParts ctx base nested) (left : Expr) :
    Telling ctx base (callRule.parse nested left) rest := by
  apply (Tells.tail rest).bind
  intro _ reached _ _
  apply (arguments_tells bounded parts).bind
  exact fun args reached _ _ => Tells.done _

theorem letRule_tells (bounded : ctx.Bounded base) (parts : TellingParts ctx base nested) :
    Telling ctx base (letRule.parse nested) rest := by
  apply (Tells.word rest).bind
  intro _ reached _ _
  apply Tells.space bounded
  apply Tells.look
  apply Tells.optionally
  case step =>
    intro _ more
    apply (Tells.word _).bind
    intro _ reached _ _
    exact Tells.space bounded (more _)
  intro rest
  apply (Tells.name bounded reserved).bind
  intro target reached _ _
  apply Tells.space bounded
  apply Tells.isAt
  apply Tells.optionally
  case step =>
    intro _ more
    apply (Tells.tail _).bind
    intro _ reached _ _
    apply (skipType_tells bounded).bind
    intro _ reached _ _
    exact Tells.space bounded (more _)
  intro rest
  apply (Tells.expect bounded (by decide)).bind
  intro _ reached _ _
  apply (parts.expr _ reached).bind
  exact fun x reached _ _ => Tells.done _

theorem parameter_tells (bounded : ctx.Bounded base) (known : List String) : Telling ctx base (parameter known) rest := by
  apply Tells.location
  apply (Tells.name bounded reserved).bind
  intro param reached _ started
  apply Tells.ite
  · exact fun _ => Tells.failAt (Tells.never started)
  · intro _
    apply Tells.space bounded
    apply Tells.isAt
    apply Tells.optionally
    case step =>
      intro _ more
      apply (Tells.tail _).bind
      intro _ reached _ _
      apply (skipType_tells bounded).bind
      exact fun _ reached _ _ => more reached
    exact fun rest => Tells.done _

theorem fnRule_tells (bounded : ctx.Bounded base) (parts : TellingParts ctx base nested) :
    Telling ctx base (fnRule.parse nested) rest := by
  apply (Tells.word rest).bind
  intro _ reached _ _
  apply Tells.space bounded
  apply (Tells.name bounded reserved).bind
  intro target reached _ _
  apply Tells.space bounded
  apply (Tells.expect bounded (by decide)).bind
  intro _ reached _ _
  apply (Tells.list bounded (by decide) (by decide) fun known _ => parameter_tells bounded known).bind
  intro params reached _ _
  apply Tells.space bounded
  apply Tells.isAt
  apply Tells.optionally
  case step =>
    intro _ more
    apply (Tells.tail _).bind
    intro _ reached _ _
    apply (skipType_tells bounded).bind
    exact fun _ reached _ _ => more reached
  intro rest
  apply (block_tells bounded parts).bind
  exact fun body reached _ _ => Tells.done _

theorem branches_tells (bounded : ctx.Bounded base) (parts : TellingParts ctx base nested) (fuel : Nat) (rest : Rest) :
    Telling ctx base (branches nested fuel) rest := by
  induction fuel generalizing rest with
  | zero => exact Tells.fail fun _ => Or.inr rfl
  | succ fuel ih =>
    apply (Tells.word rest).bind
    intro _ reached _ _
    apply (parts.expr _ reached).bind
    intro test reached _ _
    apply (block_tells bounded parts).bind
    intro yes reached _ _
    apply Tells.look
    apply Tells.ite
    · exact fun _ => Tells.done _
    intro _
    apply Tells.space bounded
    apply (Tells.word _).bind
    intro _ reached _ _
    apply Tells.space bounded
    apply Tells.look
    apply Tells.ite
    · intro _
      apply (ih _).bind
      exact fun no reached _ _ => Tells.done _
    · intro _
      apply (block_tells bounded parts).bind
      exact fun no reached _ _ => Tells.done _

theorem ifRule_tells (bounded : ctx.Bounded base) (parts : TellingParts ctx base nested) :
    Telling ctx base (ifRule.parse nested) rest := by
  have tells := branches_tells bounded parts (rest.length + 1) rest
  intro within
  exact tells within

theorem whileRule_tells (bounded : ctx.Bounded base) (parts : TellingParts ctx base nested) :
    Telling ctx base (whileRule.parse nested) rest := by
  apply (Tells.word rest).bind
  intro _ reached _ _
  apply (parts.expr _ reached).bind
  intro test reached _ _
  apply (block_tells bounded parts).bind
  exact fun body reached _ _ => Tells.done _

theorem loopRule_tells (bounded : ctx.Bounded base) (parts : TellingParts ctx base nested) :
    Telling ctx base (loopRule.parse nested) rest := by
  apply (Tells.word rest).bind
  intro _ reached _ _
  apply (block_tells bounded parts).bind
  exact fun body reached _ _ => Tells.done _

theorem wordRule_tells (keyword : String) (statement : Stmt) :
    Telling ctx base ((wordRule keyword statement).parse nested) rest := by
  apply (Tells.word rest).bind
  exact fun _ reached _ _ => Tells.done _

theorem returnRule_tells (bounded : ctx.Bounded base) (parts : TellingParts ctx base nested) :
    Telling ctx base (returnRule.parse nested) rest := by
  apply (Tells.word rest).bind
  intro _ reached _ _
  apply Tells.space bounded
  apply Tells.look
  apply Tells.ite
  · exact fun _ => Tells.done _
  · intro _
    apply (parts.expr _ _).bind
    exact fun x reached _ _ => Tells.done _

theorem printBangRule_tells (bounded : ctx.Bounded base) (parts : TellingParts ctx base nested) (word capability : String) :
    Telling ctx base ((printBangRule word capability).parse nested) rest := by
  apply (bangArguments_tells bounded parts).bind
  exact fun x reached _ _ => Tells.done _

theorem printRule_tells (bounded : ctx.Bounded base) (parts : TellingParts ctx base nested) :
    Telling ctx base (printRule.parse nested) rest := by
  apply (Tells.word rest).bind
  intro _ reached _ _
  apply Tells.space bounded
  apply (Tells.tail _).bind
  intro _ reached _ _
  apply (arguments_tells bounded parts).bind
  intro args reached _ started
  split
  · exact Tells.done _
  · exact Tells.fail (Tells.never started)

theorem blockRule_tells (bounded : ctx.Bounded base) (parts : TellingParts ctx base nested) :
    Telling ctx base (blockRule.parse nested) rest := by
  apply (block_tells bounded parts).bind
  exact fun body reached _ _ => Tells.done _

theorem open_of_assignment {op : Option ArithOp} (assigns : assignment? rest = some op) : ctx.Open rest := by
  cases rest with
  | nil => cases assigns
  | cons l rest =>
    apply Context.open_of_source
    by_contra marker
    rw [assignment?, if_pos (by simpa using marker)] at assigns
    cases assigns

theorem assignRule_tells (bounded : ctx.Bounded base) (parts : TellingParts ctx base nested) :
    Telling ctx base (assignRule.parse nested) rest := by
  apply Tells.location
  apply (parts.expr _ rest).bind
  intro x reached _ _
  apply Tells.space bounded
  apply Tells.look
  cases assigns : assignment? (ctx.skipSpace reached) with
  | none => exact Tells.done _
  | some op =>
    cases x with
    | var target =>
      apply (Tells.tail _).bind
      intro _ reached _ _
      apply (parts.expr _ reached).bind
      intro value reached _ _
      cases op with
      | none => exact Tells.done _
      | some op => exact Tells.done _
    | _ => exact Tells.failAt (Tells.never (open_of_assignment assigns))

theorem operand_tells (bounded : ctx.Bounded base) (parts : TellingParts ctx base nested) :
    ∀ rule ∈ grammar.operands, ∀ rest, rule.applies ctx rest = true → Telling ctx base (rule.parse nested) rest := by
  intro rule member rest applies
  cases isOperand rule member with
  | int => exact intRule_tells bounded applies
  | str => exact strRule_tells bounded
  | flag => exact flagRule_tells
  | format => exact bangArguments_tells bounded parts
  | negate => exact signed_tells parts (f := fun _ => .intNegate)
  | not => exact signed_tells parts (f := fun _ => .flagNot)
  | group => exact groupRule_tells bounded parts
  | var => exact variableRule_tells bounded

theorem operator_tells (bounded : ctx.Bounded base) (parts : TellingParts ctx base nested) (left : Expr) :
    ∀ rule ∈ grammar.operators, ∀ rest, rule.applies ctx rest = true → Telling ctx base (rule.parse nested left) rest := by
  intro rule member rest applies
  cases isOperator rule member with
  | or => exact signed_tells parts (f := fun _ => .or left)
  | and => exact signed_tells parts (f := fun _ => .and left)
  | compare | sum | product => exact signed_tells parts
  | call => exact callRule_tells bounded parts left

theorem statement_tells (bounded : ctx.Bounded base) (parts : TellingParts ctx base nested) :
    ∀ rule ∈ grammar.statements, ∀ rest, rule.applies ctx rest = true → Telling ctx base (rule.parse nested) rest := by
  intro rule member rest applies
  cases isStatement rule member with
  | define => exact letRule_tells bounded parts
  | declare => exact fnRule_tells bounded parts
  | cond => exact ifRule_tells bounded parts
  | whileLoop => exact whileRule_tells bounded parts
  | endless => exact loopRule_tells bounded parts
  | breakLoop => exact wordRule_tells "break" .breakLoop
  | continueLoop => exact wordRule_tells "continue" .continueLoop
  | returnWith => exact returnRule_tells bounded parts
  | println => exact printBangRule_tells bounded parts "println" "print_native"
  | printBang => exact printBangRule_tells bounded parts "print" "write_native"
  | print => exact printRule_tells bounded parts
  | block => exact blockRule_tells bounded parts
  | assign => exact assignRule_tells bounded parts

theorem grammar_telling (bounded : ctx.Bounded base) : grammar.Telling ctx base (fun _ => True) where
  space _ _ _ := trivial
  operand rule member _ parts rest applies := operand_tells bounded parts rule member rest applies
  operator rule member _ parts left rest applies := operator_tells bounded parts left rule member rest applies
  statement rule member _ parts rest applies := statement_tells bounded parts rule member rest applies

end ScriptKernel.MiniRust
