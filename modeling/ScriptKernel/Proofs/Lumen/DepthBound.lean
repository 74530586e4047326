import ScriptKernel.Lumen.Grammar
import ScriptKernel.Proofs.Parse.DepthBound

/-!
Lumen's rules see the depth bound through nested parsers only, so the bound can
do no more than refuse a program.
-/

namespace ScriptKernel.Lumen

open ScriptKernel.Parser (UpToDepth)
open ScriptKernel.Grammar (NestedUpToDepth)

variable {ctx : Context} {loose : Int} {n n' : Nested}

theorem arguments_upToDepth (nested : NestedUpToDepth ctx loose n n') (close : String) :
    UpToDepth ctx loose (arguments n close) (arguments n' close) :=
  .list fun _ => nested.expr lowest

theorem block_upToDepth (nested : NestedUpToDepth ctx loose n n') :
    UpToDepth ctx loose (block n) (block n') := by
  refine .skip Parser.skipSpace rfl (.skip (Parser.isAt ":") rfl (.optionally ?_ fun opened => ?_))
  · refine .skip (Parser.look _) rfl (.ite _ (.bind nested.statement fun _ => .same rfl) ?_)
    refine .skip Parser.advance rfl (.skip (Parser.look _) rfl (.optionally ?_ fun indented => ?_))
    · exact .skip Parser.advance rfl (.bind (Grammar.block_upToDepth nested rfl) fun _ => .same rfl)
    · exact .skip (Parser.look sight) rfl (.skip (Parser.fail _) rfl indented)
  · exact .skip Parser.advance rfl (.skip Parser.skipSpace rfl opened)

theorem numberRule_upToDepth : UpToDepth ctx loose (numberRule.parse n) (numberRule.parse n') := by
  refine .bind (.same rfl) fun text => ?_
  split <;> exact .same rfl

theorem stringRule_upToDepth : UpToDepth ctx loose (stringRule.parse n) (stringRule.parse n') :=
  .bind (Parser.string_upToDepth _ _ _) fun _ => .same rfl

theorem constantRule_upToDepth : UpToDepth ctx loose (constantRule.parse n) (constantRule.parse n') :=
  .skip Parser.word rfl (.ite _ (.same rfl) (.ite _ (.same rfl) (.same rfl)))

theorem externRule_upToDepth (nested : NestedUpToDepth ctx loose n n') :
    UpToDepth ctx loose (externRule.parse n) (externRule.parse n') := by
  refine .skip Parser.word rfl (.skip Parser.skipSpace rfl (.skip (Parser.expect ["("]) rfl ?_))
  refine .skip Parser.skipSpace rfl ?_
  refine .skip (Parser.isAt "\"") rfl (.optionally ?_ fun quoted => .skip (Parser.fail _) rfl quoted)
  refine .skip Parser.location rfl (.bind (Parser.string_upToDepth _ _ _) fun selector => ?_)
  cases Selector.parse selector with
  | error fault => exact .same rfl
  | ok keys =>
    refine .skip Parser.skipSpace rfl (.skip (Parser.isAt ",") rfl (.ite _ ?_ (.same rfl)))
    exact .skip Parser.advance rfl (.bind (arguments_upToDepth nested ")") fun _ => .same rfl)

theorem notRule_upToDepth (nested : NestedUpToDepth ctx loose n n') :
    UpToDepth ctx loose (notRule.parse n) (notRule.parse n') :=
  .skip Parser.word rfl (.bind (nested.expr comparisonLevel) fun _ => .same rfl)

theorem negateRule_upToDepth (nested : NestedUpToDepth ctx loose n n') :
    UpToDepth ctx loose (negateRule.parse n) (negateRule.parse n') :=
  .skip Parser.advance rfl (.bind (nested.expr unaryLevel) fun _ => .same rfl)

theorem groupRule_upToDepth (nested : NestedUpToDepth ctx loose n n') :
    UpToDepth ctx loose (groupRule.parse n) (groupRule.parse n') :=
  .skip Parser.advance rfl (.bind (nested.expr lowest) fun _ => .same rfl)

theorem arrayRule_upToDepth (nested : NestedUpToDepth ctx loose n n') :
    UpToDepth ctx loose (arrayRule.parse n) (arrayRule.parse n') :=
  .skip Parser.advance rfl (.bind (arguments_upToDepth nested "]") fun _ => .same rfl)

theorem behind_upToDepth {α : Type} (nested : NestedUpToDepth ctx loose n n') (read : Parser α) {least : Precedence}
    {f : α → Expr → Parser Expr} (known : read (ctx.bounded loose) = read ctx)
    (unaware : ∀ op x, f op x (ctx.bounded loose) = f op x ctx) :
    UpToDepth ctx loose (read >>= fun op => n.expr least >>= f op) (read >>= fun op => n'.expr least >>= f op) :=
  .bind (.same known) fun op => .bind (nested.expr least) fun x => .same (unaware op x)

theorem compareRule_upToDepth (nested : NestedUpToDepth ctx loose n n') (left : Expr) :
    UpToDepth ctx loose (compareRule.parse n left) (compareRule.parse n' left) := by
  refine .bind (.same rfl) fun op => .bind (nested.expr (comparisonLevel + 1)) fun right => ?_
  refine .skip Parser.skipSpace rfl (.skip (Parser.look _) rfl (.optionally (.same rfl) fun single => ?_))
  exact .skip (Parser.fail _) rfl single

theorem callRule_upToDepth (nested : NestedUpToDepth ctx loose n n') (left : Expr) :
    UpToDepth ctx loose (callRule.parse n left) (callRule.parse n' left) :=
  .skip Parser.advance rfl (.bind (arguments_upToDepth nested ")") fun _ => .same rfl)

theorem memoizationRule_upToDepth : UpToDepth ctx loose (memoizationRule.parse n) (memoizationRule.parse n') := by
  refine .skip Parser.word rfl (.skip Parser.skipSpace rfl (.skip Parser.advance rfl (.skip Parser.skipSpace rfl ?_)))
  exact .skip (Parser.look _) rfl (.ite _ (.same rfl) (.same rfl))

theorem letRule_upToDepth (nested : NestedUpToDepth ctx loose n n') :
    UpToDepth ctx loose (letRule.parse n) (letRule.parse n') := by
  refine .skip Parser.word rfl (.skip Parser.skipSpace rfl (.skip (Parser.look _) rfl (.optionally ?_ fun named => ?_)))
  · refine .bind (.same rfl) fun target => ?_
    refine .skip Parser.skipSpace rfl (.skip (Parser.isAt ":") rfl (.optionally ?_ fun valued => ?_))
    · exact .skip (Parser.expect ["="]) rfl (.bind (nested.expr lowest) fun _ => .same rfl)
    · exact .skip Parser.advance rfl (.skip Parser.skipSpace rfl (.skip name rfl (.skip Parser.skipSpace rfl valued)))
  · exact .skip Parser.word rfl (.skip Parser.skipSpace rfl named)

theorem branches_upToDepth (nested : NestedUpToDepth ctx loose n n') (fuel : Nat) :
    UpToDepth ctx loose (branches n fuel) (branches n' fuel) := by
  induction fuel with
  | zero => exact .same rfl
  | succ fuel ih =>
    refine .skip Parser.word rfl (.bind (nested.expr lowest) fun test => .bind (block_upToDepth nested) fun yes => ?_)
    refine .skip (Parser.look _) rfl (.ite _ ?_ (.skip (Parser.look _) rfl (.ite _ ?_ (.same rfl))))
    · exact .bind (fun rest => ih (beforeBranch ctx rest)) fun no => .same rfl
    · refine .skip _ rfl (.skip Parser.skipSpace rfl (.skip (Parser.look _) rfl (.ite _ ?_ ?_)))
      · exact .bind ih fun no => .same rfl
      · exact .bind (block_upToDepth nested) fun no => .same rfl

theorem whileRule_upToDepth (nested : NestedUpToDepth ctx loose n n') :
    UpToDepth ctx loose (whileRule.parse n) (whileRule.parse n') := by
  refine .bind (.same rfl) fun word => .bind (nested.expr lowest) fun test => ?_
  exact .bind (block_upToDepth nested) fun body => .same rfl

theorem forRule_upToDepth (nested : NestedUpToDepth ctx loose n n') :
    UpToDepth ctx loose (forRule.parse n) (forRule.parse n') := by
  refine .skip Parser.word rfl (.skip Parser.skipSpace rfl (.bind (.same rfl) fun target => ?_))
  refine .skip Parser.skipSpace rfl (.skip (Parser.expectKeyword "in") rfl (.bind (nested.expr lowest) fun items => ?_))
  exact .bind (block_upToDepth nested) fun body => .same rfl

theorem returnRule_upToDepth (nested : NestedUpToDepth ctx loose n n') :
    UpToDepth ctx loose (returnRule.parse n) (returnRule.parse n') := by
  refine .skip Parser.word rfl (.skip Parser.skipSpace rfl (.skip _ rfl (.ite _ (.same rfl) ?_)))
  exact .bind (nested.expr lowest) fun x => .same rfl

theorem outputRule_upToDepth (nested : NestedUpToDepth ctx loose n n') {word capability : String} :
    UpToDepth ctx loose ((outputRule word capability).parse n) ((outputRule word capability).parse n') := by
  refine .skip Parser.word rfl (.skip Parser.skipSpace rfl (.skip Parser.advance rfl ?_))
  exact .bind (arguments_upToDepth nested ")") fun args => .same rfl

theorem pushRule_upToDepth (nested : NestedUpToDepth ctx loose n n') :
    UpToDepth ctx loose (pushRule.parse n) (pushRule.parse n') := by
  refine .skip Parser.word rfl (.skip Parser.skipSpace rfl (.bind (.same rfl) fun location => ?_))
  refine .skip Parser.advance rfl (.bind (arguments_upToDepth nested ")") fun args => ?_)
  split <;> exact .same rfl

theorem assignRule_upToDepth (nested : NestedUpToDepth ctx loose n n') :
    UpToDepth ctx loose (assignRule.parse n) (assignRule.parse n') := by
  refine .bind (.same rfl) fun location => .bind (nested.expr lowest) fun x => ?_
  refine .skip Parser.skipSpace rfl (.skip (Parser.isAt "=") rfl (.ite _ (.same rfl) ?_))
  refine .skip Parser.advance rfl (.bind (nested.expr lowest) fun value => ?_)
  split <;> exact .same rfl

theorem parameter_upToDepth (known : List String) : UpToDepth ctx loose (parameter known) (parameter known) := by
  refine .bind (.same rfl) fun location => .bind (.same rfl) fun param => ?_
  exact .optionally (.same rfl) fun more => .skip (Parser.failAt _ _) rfl more

theorem fnRule_upToDepth (nested : NestedUpToDepth ctx loose n n') :
    UpToDepth ctx loose (fnRule.parse n) (fnRule.parse n') := by
  refine .skip Parser.word rfl (.skip Parser.skipSpace rfl (.bind (.same rfl) fun target => ?_))
  refine .skip Parser.skipSpace rfl (.skip (Parser.expect ["("]) rfl ?_)
  refine .bind (.list parameter_upToDepth) fun params => ?_
  exact .bind (block_upToDepth nested) fun body => .same rfl

theorem grammar_uniform : grammar.Uniform where
  operandApplies rule member ctx loose := by cases isOperand rule member <;> rfl
  operand rule member ctx loose n n' nested := by
    cases isOperand rule member with
    | number => exact numberRule_upToDepth
    | string => exact stringRule_upToDepth
    | constant => exact constantRule_upToDepth
    | hostCall => exact externRule_upToDepth nested
    | not => exact notRule_upToDepth nested
    | negate => exact negateRule_upToDepth nested
    | group => exact groupRule_upToDepth nested
    | array => exact arrayRule_upToDepth nested
    | var => exact .same rfl
  operatorApplies rule member ctx loose := by cases isOperator rule member <;> rfl
  operator rule member ctx loose n n' left nested := by
    cases isOperator rule member with
    | pipe | range | sum | product | power | index => exact behind_upToDepth nested Parser.advance rfl fun _ _ => rfl
    | or | and => exact behind_upToDepth nested Parser.word rfl fun _ _ => rfl
    | compare => exact compareRule_upToDepth nested left
    | call => exact callRule_upToDepth nested left
  statementApplies rule member ctx loose := by cases isStatement rule member <;> rfl
  statement rule member ctx loose n n' nested := by
    cases isStatement rule member with
    | memoize => exact memoizationRule_upToDepth
    | define => exact letRule_upToDepth nested
    | cond => exact fun rest => branches_upToDepth nested (rest.length + 1) rest
    | whileLoop => exact whileRule_upToDepth nested
    | forEach => exact forRule_upToDepth nested
    | breakLoop | continueLoop => exact .same rfl
    | returnWith => exact returnRule_upToDepth nested
    | declare => exact fnRule_upToDepth nested
    | print | write => exact outputRule_upToDepth nested
    | push => exact pushRule_upToDepth nested
    | assign => exact assignRule_upToDepth nested

end ScriptKernel.Lumen
