import ScriptKernel.MiniRust.Grammar
import ScriptKernel.Proofs.Parse.DepthBound

/-!
MiniRust's rules see the depth bound through nested parsers only, so the bound
can do no more than refuse a program.
-/

namespace ScriptKernel.MiniRust

open ScriptKernel.Parser (UpToDepth)
open ScriptKernel.Grammar (NestedUpToDepth)

variable {ctx : Context} {loose : Int} {n n' : Nested}

theorem arguments_upToDepth (nested : NestedUpToDepth ctx loose n n') :
    UpToDepth ctx loose (arguments n) (arguments n') :=
  .list fun _ => nested.expr lowest

theorem block_upToDepth (nested : NestedUpToDepth ctx loose n n') :
    UpToDepth ctx loose (block n) (block n') := by
  refine .skip Parser.skipSpace rfl (.skip (Parser.expect ["\x7b"]) rfl ?_)
  exact .bind (Grammar.block_upToDepth nested rfl) fun body => .same rfl

theorem bangArguments_upToDepth (nested : NestedUpToDepth ctx loose n n') :
    UpToDepth ctx loose (bangArguments n) (bangArguments n') := by
  refine .skip Parser.word rfl (.skip Parser.advance rfl (.skip Parser.skipSpace rfl ?_))
  refine .skip (Parser.expect ["("]) rfl ?_
  refine .bind (arguments_upToDepth nested) fun args => ?_
  split <;> exact .same rfl

theorem skipAngles_unaware (ctx : Context) (loose depth : Int) (rest : Rest) :
    skipAngles (ctx.bounded loose) depth rest = skipAngles ctx depth rest := by
  induction rest generalizing depth with
  | nil => rfl
  | cons l rest ih =>
    simp only [skipAngles, ih]
    rfl

theorem skipType_unaware (ctx : Context) (loose : Int) : skipType (ctx.bounded loose) = skipType ctx := by
  funext rest
  simp only [skipType, skipAngles_unaware]
  rfl

theorem intRule_upToDepth : UpToDepth ctx loose (intRule.parse n) (intRule.parse n') :=
  .bind (.same rfl) fun _ => .ite _ (.same rfl) (.same rfl)

theorem strRule_upToDepth : UpToDepth ctx loose (strRule.parse n) (strRule.parse n') :=
  .bind (Parser.string_upToDepth _ _ _) fun _ => .same rfl

theorem groupRule_upToDepth (nested : NestedUpToDepth ctx loose n n') :
    UpToDepth ctx loose (groupRule.parse n) (groupRule.parse n') :=
  .skip Parser.advance rfl (.bind (nested.expr lowest) fun _ => .same rfl)

theorem behind_upToDepth (nested : NestedUpToDepth ctx loose n n') {f : Lexeme → Expr → Expr} {least : Precedence} :
    UpToDepth ctx loose (Parser.advance >>= fun op => n.expr least >>= fun x => pure (f op x))
      (Parser.advance >>= fun op => n'.expr least >>= fun x => pure (f op x)) :=
  .bind (.same rfl) fun _ => .bind (nested.expr least) fun _ => .same rfl

theorem callRule_upToDepth (nested : NestedUpToDepth ctx loose n n') (left : Expr) :
    UpToDepth ctx loose (callRule.parse n left) (callRule.parse n' left) :=
  .skip Parser.advance rfl (.bind (arguments_upToDepth nested) fun _ => .same rfl)

theorem letRule_upToDepth (nested : NestedUpToDepth ctx loose n n') :
    UpToDepth ctx loose (letRule.parse n) (letRule.parse n') := by
  refine .skip Parser.word rfl (.skip Parser.skipSpace rfl (.skip (Parser.look _) rfl (.optionally ?_ fun named => ?_)))
  · refine .bind (.same rfl) fun target => ?_
    refine .skip Parser.skipSpace rfl (.skip (Parser.isAt ":") rfl (.optionally ?_ fun valued => ?_))
    · exact .skip (Parser.expect ["="]) rfl (.bind (nested.expr lowest) fun x => .same rfl)
    · exact .skip Parser.advance rfl (.skip skipType (skipType_unaware ctx loose) (.skip Parser.skipSpace rfl valued))
  · exact .skip Parser.word rfl (.skip Parser.skipSpace rfl named)

theorem parameter_upToDepth (known : List String) : UpToDepth ctx loose (parameter known) (parameter known) := by
  refine .bind (.same rfl) fun location => .bind (.same rfl) fun param => ?_
  refine .optionally ?_ fun more => .skip (Parser.failAt _ _) rfl more
  refine .skip Parser.skipSpace rfl (.skip (Parser.isAt ":") rfl (.optionally (.same rfl) fun typed => ?_))
  exact .skip Parser.advance rfl (.skip skipType (skipType_unaware ctx loose) typed)

theorem fnRule_upToDepth (nested : NestedUpToDepth ctx loose n n') :
    UpToDepth ctx loose (fnRule.parse n) (fnRule.parse n') := by
  refine .skip Parser.word rfl (.skip Parser.skipSpace rfl (.bind (.same rfl) fun target => ?_))
  refine .skip Parser.skipSpace rfl (.skip (Parser.expect ["("]) rfl ?_)
  refine .bind (.list parameter_upToDepth) fun params => ?_
  refine .skip Parser.skipSpace rfl (.skip (Parser.isAt "->") rfl (.optionally ?_ fun typed => ?_))
  · exact .bind (block_upToDepth nested) fun body => .same rfl
  · exact .skip Parser.advance rfl (.skip skipType (skipType_unaware ctx loose) typed)

theorem branches_upToDepth (nested : NestedUpToDepth ctx loose n n') (fuel : Nat) :
    UpToDepth ctx loose (branches n fuel) (branches n' fuel) := by
  induction fuel with
  | zero => exact .same rfl
  | succ fuel ih =>
    refine .skip Parser.word rfl (.bind (nested.expr lowest) fun test => .bind (block_upToDepth nested) fun yes => ?_)
    refine .skip (Parser.look _) rfl (.ite _ (.same rfl) (.skip Parser.skipSpace rfl (.skip Parser.word rfl ?_)))
    refine .skip Parser.skipSpace rfl (.skip (Parser.look _) rfl (.ite _ ?_ ?_))
    · exact .bind ih fun no => .same rfl
    · exact .bind (block_upToDepth nested) fun no => .same rfl

theorem whileRule_upToDepth (nested : NestedUpToDepth ctx loose n n') :
    UpToDepth ctx loose (whileRule.parse n) (whileRule.parse n') := by
  refine .skip Parser.word rfl (.bind (nested.expr lowest) fun test => ?_)
  exact .bind (block_upToDepth nested) fun body => .same rfl

theorem loopRule_upToDepth (nested : NestedUpToDepth ctx loose n n') :
    UpToDepth ctx loose (loopRule.parse n) (loopRule.parse n') :=
  .skip Parser.word rfl (.bind (block_upToDepth nested) fun _ => .same rfl)

theorem returnRule_upToDepth (nested : NestedUpToDepth ctx loose n n') :
    UpToDepth ctx loose (returnRule.parse n) (returnRule.parse n') := by
  refine .skip Parser.word rfl (.skip Parser.skipSpace rfl (.skip (Parser.look _) rfl (.ite _ (.same rfl) ?_)))
  exact .bind (nested.expr lowest) fun x => .same rfl

theorem printBangRule_upToDepth (nested : NestedUpToDepth ctx loose n n') {word capability : String} :
    UpToDepth ctx loose ((printBangRule word capability).parse n) ((printBangRule word capability).parse n') :=
  .bind (bangArguments_upToDepth nested) fun _ => .same rfl

theorem printRule_upToDepth (nested : NestedUpToDepth ctx loose n n') :
    UpToDepth ctx loose (printRule.parse n) (printRule.parse n') := by
  refine .skip Parser.word rfl (.skip Parser.skipSpace rfl (.skip Parser.advance rfl ?_))
  refine .bind (arguments_upToDepth nested) fun args => ?_
  split <;> exact .same rfl

theorem blockRule_upToDepth (nested : NestedUpToDepth ctx loose n n') :
    UpToDepth ctx loose (blockRule.parse n) (blockRule.parse n') :=
  .bind (block_upToDepth nested) fun _ => .same rfl

theorem assignRule_upToDepth (nested : NestedUpToDepth ctx loose n n') :
    UpToDepth ctx loose (assignRule.parse n) (assignRule.parse n') := by
  refine .bind (.same rfl) fun location => .bind (nested.expr lowest) fun x => ?_
  refine .skip Parser.skipSpace rfl (.bind (.same rfl) fun assigned => ?_)
  split
  · exact .same rfl
  · refine .skip Parser.advance rfl (.bind (nested.expr lowest) fun value => ?_)
    split <;> exact .same rfl
  · exact .same rfl

theorem grammar_uniform : grammar.Uniform where
  operandApplies rule member ctx loose := by cases isOperand rule member <;> rfl
  operand rule member ctx loose n n' nested := by
    cases isOperand rule member with
    | int => exact intRule_upToDepth
    | str => exact strRule_upToDepth
    | flag | var => exact .same rfl
    | format => exact bangArguments_upToDepth nested
    | negate | not => exact behind_upToDepth nested
    | group => exact groupRule_upToDepth nested
  operatorApplies rule member ctx loose := by cases isOperator rule member <;> rfl
  operator rule member ctx loose n n' left nested := by
    cases isOperator rule member with
    | or | and | compare | sum | product => exact behind_upToDepth nested
    | call => exact callRule_upToDepth nested left
  statementApplies rule member ctx loose := by cases isStatement rule member <;> rfl
  statement rule member ctx loose n n' nested := by
    cases isStatement rule member with
    | define => exact letRule_upToDepth nested
    | declare => exact fnRule_upToDepth nested
    | cond => exact fun rest => branches_upToDepth nested (rest.length + 1) rest
    | whileLoop => exact whileRule_upToDepth nested
    | endless => exact loopRule_upToDepth nested
    | breakLoop | continueLoop => exact .same rfl
    | returnWith => exact returnRule_upToDepth nested
    | println | printBang => exact printBangRule_upToDepth nested
    | print => exact printRule_upToDepth nested
    | block => exact blockRule_upToDepth nested
    | assign => exact assignRule_upToDepth nested

end ScriptKernel.MiniRust
