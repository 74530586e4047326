import Mathlib
import ScriptKernel.Proofs.Lumen.Lines
import ScriptKernel.Proofs.Number.Shortest
import ScriptKernel.Proofs.Parse.Yields

/-!
What Lumen's parser gives is well formed. Every rule makes a well-formed
expression or statement from well-formed parts: names are checked where they
are read, operators are among those that the rule looks for, and a number is
read from digits.
-/

namespace ScriptKernel.Lumen

open Written

open ScriptKernel.Parser (Yields Gives)
open ScriptKernel.Grammar (NestedGives)

variable {ctx : Context} {rest : Rest} {nested : Nested}

abbrev Parts (ctx : Context) (nested : Nested) : Prop :=
  NestedGives ctx nested FormedExpr FormedStmt

theorem name_formed : Gives name ctx IsName := by
  intro rest text reached parsed
  have valid := Parser.name_gives reserved ctx rest text reached parsed
  exact ⟨valid.1, valid.2⟩

theorem arguments_formed (parts : Parts ctx nested) (close : String) :
    Gives (arguments nested close) ctx fun args => ∀ x ∈ args, FormedExpr x :=
  .listOf (parts.expr lowest)

theorem FormedExpr.ofRead {text : String} {x : Float} (plain : text = "" ∨ Decimal.NumberText text.toList)
    (read : Decimal.read? text = some x) : FormedExpr (.literal (.number x)) := by
  rcases plain with rfl | plain
  · have unread : Decimal.read? "" = Option.none := by decide +kernel
    rw [unread] at read
    contradiction
  · rw [← String.ofList_toList (s := text)] at read
    obtain ⟨bits, finite, rfl⟩ := Decimal.read?_finite plain read
    obtain ⟨written, back⟩ := Decimal.read?_render finite
    exact .number written back

theorem numberRule_formed (start : numberRule.applies ctx rest) :
    Yields (numberRule.parse nested) ctx rest FormedExpr := by
  refine .bind (Parser.number_yields true start) fun text plain => ?_
  split
  next x read => exact .pure (.ofRead plain read)
  next => exact .fail _

theorem stringRule_formed : Gives (stringRule.parse nested) ctx FormedExpr :=
  .skip (Parser.string "\"") (.pure (.string _))

theorem constantRule_formed : Gives (constantRule.parse nested) ctx FormedExpr := by
  refine .skip Parser.word (.ite (fun isTrue => ?_) fun _ => .ite (fun isFalse => ?_) fun _ => ?_)
  · exact .pure (.bool true)
  · exact .pure (.bool false)
  · exact .pure .none

theorem externRule_formed (parts : Parts ctx nested) : Gives (externRule.parse nested) ctx FormedExpr := by
  refine .skip Parser.word (.skip Parser.skipSpace (.skip (Parser.expect ["("]) (.skip Parser.skipSpace ?_)))
  refine .skip (Parser.isAt "\"") (.optionally (fun quoted => .skip (Parser.fail _) quoted) ?_)
  refine .skip Parser.location (.bind (P := fun _ => True) (fun _ _ _ _ => trivial) fun selector _ => ?_)
  cases parsed : Selector.parse selector with
  | error fault => exact .failAt _ _
  | ok keys =>
    refine .skip Parser.skipSpace (.skip (Parser.isAt ",") (.ite (fun comma => ?_) fun closed => ?_))
    · refine .skip Parser.advance (.bind (arguments_formed parts ")") fun args each => ?_)
      exact .pure (.hostCall parsed each)
    · exact .skip (Parser.expect [")"]) (.pure (.hostCall parsed (List.forall_mem_nil _)))

theorem notRule_formed (parts : Parts ctx nested) : Gives (notRule.parse nested) ctx FormedExpr :=
  .skip Parser.word (.bind (parts.expr comparisonLevel) fun _ formed => .pure (.not formed))

theorem negateRule_formed (parts : Parts ctx nested) : Gives (negateRule.parse nested) ctx FormedExpr :=
  .skip Parser.advance (.bind (parts.expr unaryLevel) fun _ formed => .pure (.negate formed))

theorem groupRule_formed (parts : Parts ctx nested) : Gives (groupRule.parse nested) ctx FormedExpr := by
  refine .skip Parser.advance (.bind (parts.expr lowest) fun x formed => ?_)
  exact .skip Parser.skipSpace (.skip (Parser.expect [")"]) (.pure formed))

theorem arrayRule_formed (parts : Parts ctx nested) : Gives (arrayRule.parse nested) ctx FormedExpr :=
  .skip Parser.advance (.bind (arguments_formed parts "]") fun _ each => .pure (.array each))

theorem variableRule_formed : Gives (variableRule.parse nested) ctx FormedExpr :=
  .bind name_formed fun _ valid => .pure (.var valid)

theorem FormedExpr.piped {x f : Expr} (left : FormedExpr x) (right : FormedExpr f) : FormedExpr (piped x f) := by
  unfold Lumen.piped
  split
  next => exact .pipe left right
  next => exact .pipe left (.call right (List.forall_mem_nil _))

theorem known_comparison : ∀ text ∈ comparisons, (Infix.compare (CompareOp.ofSymbol text)).Known := by
  simp [comparisons, CompareOp.ofSymbol, Infix.Known]

def arithmetic : List String := ["+", "-", "*", "/", "//", "%", "**"]

theorem known_arithmetic : ∀ text ∈ arithmetic, (Infix.arith (ArithOp.ofSymbol text)).Known := by
  simp [arithmetic, ArithOp.ofSymbol, Infix.Known]

variable {left : Expr}

theorem pipeRule_formed (parts : Parts ctx nested) (formed : FormedExpr left) :
    Gives (pipeRule.parse nested left) ctx FormedExpr :=
  .skip Parser.advance (.bind (parts.expr _) fun _ right => .pure (formed.piped right))

theorem rangeRule_formed (parts : Parts ctx nested) (formed : FormedExpr left) :
    Gives (rangeRule.parse nested left) ctx FormedExpr :=
  .skip Parser.advance (.bind (parts.expr _) fun x right =>
    .pure (@FormedExpr.between .range left x trivial nofun formed right))

theorem orRule_formed (parts : Parts ctx nested) (formed : FormedExpr left) :
    Gives (orRule.parse nested left) ctx FormedExpr :=
  .skip Parser.word (.bind (parts.expr _) fun x right =>
    .pure (@FormedExpr.between .or left x trivial nofun formed right))

theorem andRule_formed (parts : Parts ctx nested) (formed : FormedExpr left) :
    Gives (andRule.parse nested left) ctx FormedExpr :=
  .skip Parser.word (.bind (parts.expr _) fun x right =>
    .pure (@FormedExpr.between .and left x trivial nofun formed right))

theorem compareRule_formed (parts : Parts ctx nested) (formed : FormedExpr left)
    (applies : compareRule.applies ctx rest) : Yields (compareRule.parse nested left) ctx rest FormedExpr := by
  have known := known_comparison _ (@Parser.peek_mem ctx _ _ applies)
  refine .advance (.bind (parts.expr _) fun x right => ?_)
  refine .skip Parser.skipSpace (.skip (Parser.look _) (.optionally (fun single => .skip (Parser.fail _) single) ?_))
  exact .pure (.between known nofun formed right)

theorem arithmeticRule_formed (parts : Parts ctx nested) (formed : FormedExpr left) {symbols : List String}
    {level least : Precedence} (among : symbols ⊆ arithmetic)
    (applies : (arithmeticRule symbols level least).applies ctx rest) :
    Yields ((arithmeticRule symbols level least).parse nested left) ctx rest FormedExpr :=
  have known := known_arithmetic _ (among (@Parser.peek_mem ctx _ _ applies))
  .advance (.bind (parts.expr least) fun _ right => .pure (.between known nofun formed right))

theorem callRule_formed (parts : Parts ctx nested) (formed : FormedExpr left) :
    Gives (callRule.parse nested left) ctx FormedExpr :=
  .skip Parser.advance (.bind (arguments_formed parts ")") fun _ each => .pure (.call formed each))

theorem indexRule_formed (parts : Parts ctx nested) (formed : FormedExpr left) :
    Gives (indexRule.parse nested left) ctx FormedExpr := by
  refine .skip Parser.advance (.bind (parts.expr lowest) fun _ position => ?_)
  exact .skip Parser.skipSpace (.skip (Parser.expect ["]"]) (.pure (.index formed position)))

theorem block_formed (parts : Parts ctx nested) : Gives (block nested) ctx fun body => ∀ s ∈ body, FormedStmt s := by
  refine .skip Parser.skipSpace (.skip (Parser.isAt ":") (.optionally (fun opened => ?_) ?_))
  · exact .skip Parser.advance (.skip Parser.skipSpace opened)
  refine .skip (Parser.look _) (.ite (fun sameLine => ?_) fun newline => ?_)
  · exact .bind parts.statement fun s formed => .pure (List.forall_mem_singleton.2 formed)
  refine .skip Parser.advance (.skip (Parser.look _) (.optionally (fun indented => ?_) ?_))
  · exact .skip (Parser.look _) (.skip (Parser.fail _) indented)
  refine .skip Parser.advance (.bind (Grammar.block_gives parts _) fun body each => ?_)
  exact .skip Parser.advance (.pure each)

theorem memoizationRule_formed : Gives (memoizationRule.parse nested) ctx FormedStmt := by
  refine .skip Parser.word (.skip Parser.skipSpace (.skip Parser.advance (.skip Parser.skipSpace ?_)))
  refine .skip (Parser.look _) (.ite (fun isFlag => ?_) fun other => ?_)
  · exact .skip Parser.word (.skip endStatement (.pure (.memoize _)))
  · exact .skip (Parser.look _) (.fail _)

theorem letRule_formed (parts : Parts ctx nested) : Gives (letRule.parse nested) ctx FormedStmt := by
  refine .skip Parser.word (.skip Parser.skipSpace (.skip (Parser.look _) (.optionally (fun named => ?_) ?_)))
  · exact .skip Parser.word (.skip Parser.skipSpace named)
  refine .bind name_formed fun target valid => ?_
  refine .skip Parser.skipSpace (.skip (Parser.isAt ":") (.optionally (fun valued => ?_) ?_))
  · exact .skip Parser.advance (.skip Parser.skipSpace (.skip name (.skip Parser.skipSpace valued)))
  refine .skip (Parser.expect ["="]) (.bind (parts.expr lowest) fun x formed => ?_)
  exact .skip endStatement (.pure (.define valid formed))

theorem branches_formed (parts : Parts ctx nested) (fuel : Nat) : Gives (branches nested fuel) ctx FormedStmt := by
  induction fuel with
  | zero => exact .fail _
  | succ fuel ih =>
    refine .skip Parser.word (.bind (parts.expr lowest) fun test formed => ?_)
    refine .bind (block_formed parts) fun yes then_ => ?_
    refine .skip (Parser.look _) (.ite (fun isElif => ?_) fun _ => ?_)
    · refine .bind (P := FormedStmt) (fun rest => ih (beforeBranch ctx rest)) fun no more => ?_
      exact .pure (.cond formed then_ (List.forall_mem_singleton.2 more))
    refine .skip (Parser.look _) (.ite (fun isElse => ?_) fun _ => ?_)
    · refine .skip _ (.skip Parser.skipSpace (.skip (Parser.look _) (.ite (fun isIf => ?_) fun _ => ?_)))
      · exact .bind ih fun no more => .pure (.cond formed then_ (List.forall_mem_singleton.2 more))
      · exact .bind (block_formed parts) fun no else_ => .pure (.cond formed then_ else_)
    · exact .pure (.cond formed then_ (List.forall_mem_nil _))

theorem ifRule_formed (parts : Parts ctx nested) : Gives (ifRule.parse nested) ctx FormedStmt :=
  fun rest s reached parsed => branches_formed parts (rest.length + 1) rest s reached parsed

theorem whileRule_formed (parts : Parts ctx nested) : Gives (whileRule.parse nested) ctx FormedStmt := by
  refine .bind (P := fun _ => True) (fun _ _ _ _ => trivial) fun word _ => ?_
  refine .bind (parts.expr lowest) fun test formed => ?_
  exact .bind (block_formed parts) fun body each => .pure (.whileLoop formed each _)

theorem forRule_formed (parts : Parts ctx nested) : Gives (forRule.parse nested) ctx FormedStmt := by
  refine .skip Parser.word (.skip Parser.skipSpace (.bind name_formed fun target valid => ?_))
  refine .skip Parser.skipSpace (.skip (Parser.expectKeyword "in") (.bind (parts.expr lowest) fun items formed => ?_))
  exact .bind (block_formed parts) fun body each => .pure (.forEach valid formed each)

theorem wordRule_formed {keyword : String} {statement : Stmt} (formed : FormedStmt statement) :
    Gives ((wordRule keyword statement).parse nested) ctx FormedStmt :=
  .skip Parser.word (.skip endStatement (.pure formed))

theorem returnRule_formed (parts : Parts ctx nested) : Gives (returnRule.parse nested) ctx FormedStmt := by
  refine .skip Parser.word (.skip Parser.skipSpace (.skip _ (.ite (fun ends => .pure .returnNone) fun _ => ?_)))
  refine .bind (parts.expr lowest) fun x formed => ?_
  exact .skip endStatement (.pure (.returnSome formed))

theorem parameter_formed (known : List String) :
    Gives (parameter known) ctx fun param => IsName param ∧ param ∉ known := by
  refine .skip Parser.location (.bind name_formed fun param valid => .ite (fun old => ?_) fun fresh => ?_)
  · exact .bind (P := fun _ => False) (.failAt _ _) nofun
  · exact .pure ⟨valid, fun member => fresh (List.contains_iff_mem.2 member)⟩

theorem parameters_formed :
    Gives (Parser.list "," ")" parameter) ctx fun params => (∀ param ∈ params, IsName param) ∧ params.Nodup :=
  .distinct parameter_formed

theorem fnRule_formed (parts : Parts ctx nested) : Gives (fnRule.parse nested) ctx FormedStmt := by
  refine .skip Parser.word (.skip Parser.skipSpace (.bind name_formed fun target valid => ?_))
  refine .skip Parser.skipSpace (.skip (Parser.expect ["("]) (.bind parameters_formed fun params names => ?_))
  exact .bind (block_formed parts) fun body each => .pure (.declare valid names.1 names.2 each)

theorem outputRule_formed (parts : Parts ctx nested) {word capability : String}
    (parsed : Selector.parse capability = .ok [⟨"", capability⟩]) :
    Gives ((outputRule word capability).parse nested) ctx FormedStmt := by
  refine .skip Parser.word (.skip Parser.skipSpace (.skip Parser.advance ?_))
  refine .bind (arguments_formed parts ")") fun args each => ?_
  exact .skip endStatement (.pure (.expr (.hostCall parsed each)))

theorem pushRule_formed (parts : Parts ctx nested) : Gives (pushRule.parse nested) ctx FormedStmt := by
  refine .skip Parser.word (.skip Parser.skipSpace (.skip Parser.location (.skip Parser.advance ?_)))
  refine .bind (arguments_formed parts ")") fun args each => ?_
  split
  next array x =>
    have held : FormedExpr array ∧ FormedExpr x := by simpa using each
    exact .skip endStatement (.pure (.push held.1 held.2))
  next => exact .failAt _ _

theorem FormedExpr.index_parts {x position : Expr} (formed : FormedExpr (.index x position)) :
    FormedExpr x ∧ FormedExpr position := by
  generalize same : Expr.index x position = y at formed
  cases formed with
  | index left inner =>
    cases same
    exact ⟨left, inner⟩
  | @between op l r known ordinary left right =>
    cases op with
    | pipe => exact absurd rfl ordinary
    | _ => cases same
  | _ => cases same

theorem assignment_formed {x value : Expr} (target : FormedExpr x) (formed : FormedExpr value) {s : Stmt}
    (assigned : assignment? x value = some s) : FormedStmt s := by
  rw [assignment?.eq_def] at assigned
  split at assigned
  next name =>
    cases assigned
    exact .assign target.isName formed
  next name position =>
    cases assigned
    obtain ⟨array, inner⟩ := target.index_parts
    exact .setItem array.isName inner formed
  next => cases assigned

theorem assignRule_formed (parts : Parts ctx nested) : Gives (assignRule.parse nested) ctx FormedStmt := by
  refine .skip Parser.location (.bind (parts.expr lowest) fun x target => ?_)
  refine .skip Parser.skipSpace (.skip (Parser.isAt "=") (.ite (fun alone => ?_) fun assigned => ?_))
  · exact .skip endStatement (.pure (.expr target))
  refine .skip Parser.advance (.bind (parts.expr lowest) fun value formed => ?_)
  split
  next s found => exact .skip endStatement (.pure (assignment_formed target formed found))
  next => exact .failAt _ _

theorem grammar_preserves (ctx : Context) : grammar.Preserves ctx FormedExpr FormedStmt where
  operand rule member nested parts rest applies := by
    cases isOperand rule member with
    | number => exact numberRule_formed applies
    | string => exact stringRule_formed rest
    | constant => exact constantRule_formed rest
    | hostCall => exact externRule_formed parts rest
    | not => exact notRule_formed parts rest
    | negate => exact negateRule_formed parts rest
    | group => exact groupRule_formed parts rest
    | array => exact arrayRule_formed parts rest
    | var => exact variableRule_formed rest
  operator rule member nested parts left formed rest applies := by
    cases isOperator rule member with
    | pipe => exact pipeRule_formed parts formed rest
    | range => exact rangeRule_formed parts formed rest
    | or => exact orRule_formed parts formed rest
    | and => exact andRule_formed parts formed rest
    | compare => exact compareRule_formed parts formed applies
    | sum | product | power => exact arithmeticRule_formed parts formed (by decide) applies
    | call => exact callRule_formed parts formed rest
    | index => exact indexRule_formed parts formed rest
  statement rule member nested parts := by
    have printed : Selector.parse "print_native" = .ok [⟨"", "print_native"⟩] := by decide
    have written : Selector.parse "write_native" = .ok [⟨"", "write_native"⟩] := by decide
    cases isStatement rule member with
    | memoize => exact memoizationRule_formed
    | define => exact letRule_formed parts
    | cond => exact ifRule_formed parts
    | whileLoop => exact whileRule_formed parts
    | forEach => exact forRule_formed parts
    | breakLoop => exact wordRule_formed .breakLoop
    | continueLoop => exact wordRule_formed .continueLoop
    | returnWith => exact returnRule_formed parts
    | declare => exact fnRule_formed parts
    | print => exact outputRule_formed parts printed
    | write => exact outputRule_formed parts written
    | push => exact pushRule_formed parts
    | assign => exact assignRule_formed parts

end ScriptKernel.Lumen
