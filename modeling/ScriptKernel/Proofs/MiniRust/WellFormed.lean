import Mathlib
import ScriptKernel.Proofs.MiniRust.Blocks
import ScriptKernel.Proofs.Parse.Yields

/-!
What MiniRust's parser gives is well formed. A macro whose first argument is a
string literal is a template with arguments, so that no other macro stands for
a string literal except for the empty one.
-/

namespace ScriptKernel.MiniRust

open Written

open ScriptKernel.Parser (Yields Gives)
open ScriptKernel.Grammar (NestedGives)

variable {ctx : Context} {rest : Rest} {nested : Nested}

abbrev Parts (ctx : Context) (nested : Nested) : Prop :=
  NestedGives ctx nested FormedExpr FormedStmt

theorem name_formed : Gives name ctx IsName := by
  intro rest text reached parsed
  have valid := Parser.name_gives reserved ctx rest text reached parsed
  exact ⟨valid.1, valid.2⟩

theorem arguments_formed (parts : Parts ctx nested) :
    Gives (arguments nested) ctx fun args => ∀ x ∈ args, FormedExpr x :=
  .listOf (parts.expr lowest)

theorem bangArguments_formed (parts : Parts ctx nested) :
    Gives (bangArguments nested) ctx fun x => FormedExpr x ∧ ∀ text, x = .literal (.str text) → text = "" := by
  refine .skip Parser.word (.skip Parser.advance (.skip Parser.skipSpace (.skip (Parser.expect ["("]) ?_)))
  refine .bind (arguments_formed parts) fun args each => ?_
  split
  next =>
    refine .pure ⟨.str "", fun text same => ?_⟩
    cases same
    rfl
  next template args =>
    exact .pure ⟨.format fun x member => each x (List.mem_cons_of_mem _ member), nofun⟩
  next x other =>
    exact .pure ⟨each x List.mem_cons_self, fun text same => (other text same).elim⟩
  next => exact .fail _

theorem intRule_formed : Gives (intRule.parse nested) ctx FormedExpr := by
  refine .skip (Parser.number false) (.ite (fun fits => .pure (.int ?_)) fun _ => .fail _)
  rw [Int64.toInt_maxValue] at fits
  rw [Int64.toInt_ofNat_of_lt (by omega)]
  exact Int.natCast_nonneg _

theorem strRule_formed : Gives (strRule.parse nested) ctx FormedExpr :=
  .skip (Parser.string "\"") (.pure (.str _))

theorem flagRule_formed : Gives (flagRule.parse nested) ctx FormedExpr :=
  .skip Parser.word (.pure (.flag _))

theorem formatRule_formed (parts : Parts ctx nested) : Gives (formatRule.parse nested) ctx FormedExpr :=
  fun rest x reached parsed => (bangArguments_formed parts rest x reached parsed).1

theorem negateRule_formed (parts : Parts ctx nested) : Gives (negateRule.parse nested) ctx FormedExpr :=
  .skip Parser.advance (.bind (parts.expr unaryLevel) fun _ formed => .pure (.negate formed))

theorem notRule_formed (parts : Parts ctx nested) : Gives (notRule.parse nested) ctx FormedExpr :=
  .skip Parser.advance (.bind (parts.expr unaryLevel) fun _ formed => .pure (.not formed))

theorem groupRule_formed (parts : Parts ctx nested) : Gives (groupRule.parse nested) ctx FormedExpr := by
  refine .skip Parser.advance (.bind (parts.expr lowest) fun x formed => ?_)
  exact .skip Parser.skipSpace (.skip (Parser.expect [")"]) (.pure formed))

theorem variableRule_formed : Gives (variableRule.parse nested) ctx FormedExpr :=
  .bind name_formed fun _ valid => .pure (.var valid)

def comparisons : List String := ["==", "!=", "<=", ">=", "<", ">"]

theorem known_comparison : ∀ text ∈ comparisons, (Infix.compare (CompareOp.ofSymbol text)).Known := by
  simp [comparisons, CompareOp.ofSymbol, Infix.Known]

def arithmetic : List String := ["+", "-", "*", "/", "%"]

theorem known_arithmetic : ∀ text ∈ arithmetic, (Infix.arith (ArithOp.ofSymbol text)).Known := by
  simp [arithmetic, ArithOp.ofSymbol, Infix.Known]

variable {left : Expr}

theorem orRule_formed (parts : Parts ctx nested) (formed : FormedExpr left) :
    Gives (orRule.parse nested left) ctx FormedExpr :=
  .skip Parser.advance (.bind (parts.expr _) fun x right => .pure (@FormedExpr.between .or left x trivial formed right))

theorem andRule_formed (parts : Parts ctx nested) (formed : FormedExpr left) :
    Gives (andRule.parse nested left) ctx FormedExpr :=
  .skip Parser.advance (.bind (parts.expr _) fun x right => .pure (@FormedExpr.between .and left x trivial formed right))

theorem compareRule_formed (parts : Parts ctx nested) (formed : FormedExpr left)
    (applies : compareRule.applies ctx rest) : Yields (compareRule.parse nested left) ctx rest FormedExpr :=
  have known := known_comparison _ (@Parser.peek_mem ctx _ _ applies)
  .advance (.bind (parts.expr _) fun _ right => .pure (.between known formed right))

theorem arithmeticRule_formed (parts : Parts ctx nested) (formed : FormedExpr left) {symbols : List String}
    {level : Precedence} (among : symbols ⊆ arithmetic) (applies : (arithmeticRule symbols level).applies ctx rest) :
    Yields ((arithmeticRule symbols level).parse nested left) ctx rest FormedExpr :=
  have known := known_arithmetic _ (among (@Parser.peek_mem ctx _ _ applies))
  .advance (.bind (parts.expr _) fun _ right => .pure (.between known formed right))

theorem callRule_formed (parts : Parts ctx nested) (formed : FormedExpr left) :
    Gives (callRule.parse nested left) ctx FormedExpr :=
  .skip Parser.advance (.bind (arguments_formed parts) fun _ each => .pure (.call formed each))

theorem block_formed (parts : Parts ctx nested) : Gives (block nested) ctx fun body => ∀ s ∈ body, FormedStmt s := by
  refine .skip Parser.skipSpace (.skip (Parser.expect ["\x7b"]) ?_)
  refine .bind (Grammar.block_gives parts _) fun body each => ?_
  exact .skip Parser.advance (.pure each)

theorem letRule_formed (parts : Parts ctx nested) : Gives (letRule.parse nested) ctx FormedStmt := by
  refine .skip Parser.word (.skip Parser.skipSpace (.skip (Parser.look _) (.optionally (fun named => ?_) ?_)))
  · exact .skip Parser.word (.skip Parser.skipSpace named)
  refine .bind name_formed fun target valid => ?_
  refine .skip Parser.skipSpace (.skip (Parser.isAt ":") (.optionally (fun valued => ?_) ?_))
  · exact .skip Parser.advance (.skip skipType (.skip Parser.skipSpace valued))
  refine .skip (Parser.expect ["="]) (.bind (parts.expr lowest) fun x formed => ?_)
  exact .pure (.define valid formed)

theorem parameter_formed (known : List String) :
    Gives (parameter known) ctx fun param => IsName param ∧ param ∉ known := by
  refine .skip Parser.location (.bind name_formed fun param valid => .ite (fun old => ?_) fun fresh => ?_)
  · exact .bind (P := fun _ => False) (.failAt _ _) nofun
  have apart : param ∉ known := fun member => fresh (List.contains_iff_mem.2 member)
  refine .skip Parser.skipSpace (.skip (Parser.isAt ":") (.optionally (fun typed => ?_) (.pure ⟨valid, apart⟩)))
  exact .skip Parser.advance (.skip skipType typed)

theorem parameters_formed :
    Gives (Parser.list "," ")" parameter) ctx fun params => (∀ param ∈ params, IsName param) ∧ params.Nodup :=
  .distinct parameter_formed

theorem fnRule_formed (parts : Parts ctx nested) : Gives (fnRule.parse nested) ctx FormedStmt := by
  refine .skip Parser.word (.skip Parser.skipSpace (.bind name_formed fun target valid => ?_))
  refine .skip Parser.skipSpace (.skip (Parser.expect ["("]) (.bind parameters_formed fun params names => ?_))
  refine .skip Parser.skipSpace (.skip (Parser.isAt "->") (.optionally (fun typed => ?_) ?_))
  · exact .skip Parser.advance (.skip skipType typed)
  exact .bind (block_formed parts) fun body each => .pure (.declare valid names.1 names.2 each)

theorem branches_formed (parts : Parts ctx nested) (fuel : Nat) : Gives (branches nested fuel) ctx FormedStmt := by
  induction fuel with
  | zero => exact .fail _
  | succ fuel ih =>
    refine .skip Parser.word (.bind (parts.expr lowest) fun test formed => ?_)
    refine .bind (block_formed parts) fun yes then_ => ?_
    refine .skip (Parser.look _) (.ite (fun alone => .pure (.cond formed then_ (List.forall_mem_nil _))) fun _ => ?_)
    refine .skip Parser.skipSpace (.skip Parser.word (.skip Parser.skipSpace ?_))
    refine .skip (Parser.look _) (.ite (fun isIf => ?_) fun _ => ?_)
    · exact .bind ih fun no more => .pure (.cond formed then_ (List.forall_mem_singleton.2 more))
    · exact .bind (block_formed parts) fun no else_ => .pure (.cond formed then_ else_)

theorem ifRule_formed (parts : Parts ctx nested) : Gives (ifRule.parse nested) ctx FormedStmt :=
  fun rest s reached parsed => branches_formed parts (rest.length + 1) rest s reached parsed

theorem whileRule_formed (parts : Parts ctx nested) : Gives (whileRule.parse nested) ctx FormedStmt := by
  refine .skip Parser.word (.bind (parts.expr lowest) fun test formed => ?_)
  exact .bind (block_formed parts) fun body each => .pure (.whileLoop formed each)

theorem loopRule_formed (parts : Parts ctx nested) : Gives (loopRule.parse nested) ctx FormedStmt :=
  .skip Parser.word (.bind (block_formed parts) fun _ each => .pure (.endless each))

theorem wordRule_formed {keyword : String} {statement : Stmt} (formed : FormedStmt statement) :
    Gives ((wordRule keyword statement).parse nested) ctx FormedStmt :=
  .skip Parser.word (.pure formed)

theorem returnRule_formed (parts : Parts ctx nested) : Gives (returnRule.parse nested) ctx FormedStmt := by
  refine .skip Parser.word (.skip Parser.skipSpace (.skip (Parser.look _) ?_))
  refine .ite (fun ends => .pure .returnNone) fun _ => ?_
  exact .bind (parts.expr lowest) fun x formed => .pure (.returnSome formed)

theorem printlnRule_formed (parts : Parts ctx nested) :
    Gives ((printBangRule "println" "print_native").parse nested) ctx FormedStmt :=
  .bind (bangArguments_formed parts) fun _ formed => .pure (.print formed.1)

theorem printBangRule_formed (parts : Parts ctx nested) :
    Gives ((printBangRule "print" "write_native").parse nested) ctx FormedStmt :=
  .bind (bangArguments_formed parts) fun _ formed => .pure (.write formed.1 formed.2)

theorem printRule_formed (parts : Parts ctx nested) : Gives (printRule.parse nested) ctx FormedStmt := by
  refine .skip Parser.word (.skip Parser.skipSpace (.skip Parser.advance ?_))
  refine .bind (arguments_formed parts) fun args each => ?_
  split
  next x => exact .pure (.print (each x List.mem_cons_self))
  next => exact .fail _

theorem blockRule_formed (parts : Parts ctx nested) : Gives (blockRule.parse nested) ctx FormedStmt :=
  .bind (block_formed parts) fun _ each => .pure (.block each)

theorem known_compound {text : String} {op : ArithOp} (found : compound? text = some op) :
    (Infix.arith op).Known := by
  unfold compound? at found
  split_ifs at found <;> cases found <;> simp [Infix.Known]

theorem known_assignment {op : ArithOp} (found : assignment? rest = some (some op)) : (Infix.arith op).Known := by
  unfold assignment? at found
  split at found
  next => cases found
  next l more =>
    split_ifs at found
    · cases found
    · obtain ⟨op, compound, ⟨⟩⟩ := Option.map_eq_some_iff.1 found
      exact known_compound compound

theorem assignRule_formed (parts : Parts ctx nested) : Gives (assignRule.parse nested) ctx FormedStmt := by
  refine .skip Parser.location (.bind (parts.expr lowest) fun x target => ?_)
  refine .skip Parser.skipSpace (.look fun reached => ?_)
  split
  next => exact .pure (.expr target)
  next op name found =>
    have valid := target.isName
    refine .skip Parser.advance (.bind (parts.expr lowest) fun value formed => ?_)
    split
    next => exact .pure (.assign valid formed)
    next op =>
      have known := known_assignment found
      exact .pure (.assign valid (@FormedExpr.between (.arith op) _ _ known (.var valid) formed))
  next => exact .failAt _ _

theorem grammar_preserves (ctx : Context) : grammar.Preserves ctx FormedExpr FormedStmt where
  operand rule member nested parts rest applies := by
    cases isOperand rule member with
    | int => exact intRule_formed rest
    | str => exact strRule_formed rest
    | flag => exact flagRule_formed rest
    | format => exact formatRule_formed parts rest
    | negate => exact negateRule_formed parts rest
    | not => exact notRule_formed parts rest
    | group => exact groupRule_formed parts rest
    | var => exact variableRule_formed rest
  operator rule member nested parts left formed rest applies := by
    cases isOperator rule member with
    | or => exact orRule_formed parts formed rest
    | and => exact andRule_formed parts formed rest
    | compare => exact compareRule_formed parts formed applies
    | sum | product => exact arithmeticRule_formed parts formed (by decide) applies
    | call => exact callRule_formed parts formed rest
  statement rule member nested parts := by
    cases isStatement rule member with
    | define => exact letRule_formed parts
    | declare => exact fnRule_formed parts
    | cond => exact ifRule_formed parts
    | whileLoop => exact whileRule_formed parts
    | endless => exact loopRule_formed parts
    | breakLoop => exact wordRule_formed .breakLoop
    | continueLoop => exact wordRule_formed .continueLoop
    | returnWith => exact returnRule_formed parts
    | println => exact printlnRule_formed parts
    | printBang => exact printBangRule_formed parts
    | print => exact printRule_formed parts
    | block => exact blockRule_formed parts
    | assign => exact assignRule_formed parts

end ScriptKernel.MiniRust
