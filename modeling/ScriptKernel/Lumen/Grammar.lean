import ScriptKernel.Parse.Grammar
import ScriptKernel.Program.Basic
import ScriptKernel.Layout.Basic

/-!
The grammar of Lumen. Blocks are indented, statements end with their line or a
semicolon, and a block of one statement may stand on the line that opens it.
-/

namespace ScriptKernel.Lumen

abbrev Nested := ScriptKernel.Nested Expr Stmt
abbrev Operand := OperandRule Expr Stmt
abbrev Operator := OperatorRule Expr Stmt
abbrev Statement := StatementRule Expr Stmt

def table : Table :=
  Table.ofEntries ["==", "!=", "<=", ">=", "..", "|>", "**", "//"]

def layout : Layout :=
  .indentation
    { width := 4
      comment := "#"
      quotes := ["\""]
      escape := "\\"
      opening := ["(", "["]
      closing := [")", "]"] }

def reserved : List String :=
  ["let", "mut", "if", "elif", "else", "while", "until", "for", "in", "break", "continue",
   "return", "fn", "and", "or", "not", "true", "false", "none", "extern"]

def isNewline (aliases : Aliases) (lexeme : Lexeme) : Bool :=
  lexeme.synthetic && lexeme.text == aliases.newline

def skipSpace (rest : Rest) : Rest :=
  Rest.skipBlanks false rest

def skipTrivia (aliases : Aliases) (rest : Rest) : Rest :=
  rest.dropWhile fun lexeme =>
    lexeme.isSpace false || isNewline aliases lexeme || (!lexeme.synthetic && lexeme.text == ";")

def context (tokens : List Lexeme) (file : String) (maxDepth : Int) : Context :=
  { past := Lexeme.past tokens
    file := file
    skipSpace := skipSpace
    skipTrivia := skipTrivia {}
    maxDepth := maxDepth }

def sight (ctx : Context) (rest : Rest) : Sight :=
  match ctx.sight rest with
  | .source text => .source (if rest.word = "" then text else rest.word)
  | other => other

def lowest : Precedence := 0
def pipeLevel : Precedence := 1
def rangeLevel : Precedence := 2
def orLevel : Precedence := 3
def andLevel : Precedence := 4
def comparisonLevel : Precedence := 5
def termLevel : Precedence := 6
def factorLevel : Precedence := 7
def unaryLevel : Precedence := 8
def powerLevel : Precedence := 9
def callLevel : Precedence := 10

def comparisons : List String := ["==", "!=", "<=", ">=", "<", ">"]

def name : Parser String := Parser.name reserved

def arguments (nested : Nested) (close : String) : Parser (List Expr) :=
  Parser.list "," close fun _ => nested.expr lowest

/-- A statement ends where its line, its block or the input ends, or at a
semicolon, which is left in place. -/
def endStatement : Parser Unit := do
  Parser.skipSpace
  fun ctx rest =>
    if Rest.isAt ";" rest || ctx.isStructural .newline rest || ctx.isStructural .dedent rest ||
        ctx.atEnd rest then .ok () rest
    else Parser.fail (.expectedEnd (sight ctx rest)) ctx rest

/-- The body of a compound statement: after an optional colon either an
indented block or one statement on the same line. -/
def block (nested : Nested) : Parser (List Stmt) := do
  Parser.skipSpace
  if ← Parser.isAt ":" then
    let _ ← Parser.advance
    Parser.skipSpace
  if ← Parser.look fun ctx rest => !ctx.isStructural .newline rest then
    let statement ← nested.statement
    return [statement]
  let _ ← Parser.advance
  if ← Parser.look fun ctx rest => !ctx.isStructural .indent rest then
    let seen ← Parser.look sight
    Parser.fail (.expectedBlock seen)
  let _ ← Parser.advance
  let body ← Grammar.block nested fun ctx rest => ctx.isStructural .dedent rest
  let _ ← Parser.advance
  return body

def followedBy (keyword next : String) (ctx : Context) (rest : Rest) : Bool :=
  rest.isKeyword keyword && Rest.isAt next (ctx.skipSpace rest.afterWord)

def numberRule : Operand where
  applies _ rest := rest.isDigitStart
  parse _ := do
    let text ← Parser.number true
    match Decimal.read? text with
    | some x => return .literal (.number x)
    | none => Parser.fail (.invalidNumber text)

def stringRule : Operand where
  applies _ rest := rest.isAt "\""
  parse _ := do
    let text ← Parser.string "\""
    return .literal (.string text)

def constantRule : Operand where
  applies _ rest := rest.isAnyKeyword ["true", "false", "none"]
  parse _ := do
    let word ← Parser.word
    if word = "true" then return .literal (.bool true)
    if word = "false" then return .literal (.bool false)
    return .literal .none

/-- A call of the host. The selector is taken apart here and looked up when
the call is made. -/
def externRule : Operand where
  applies _ rest := rest.isKeyword "extern"
  parse nested := do
    let _ ← Parser.word
    Parser.skipSpace
    let _ ← Parser.expect ["("]
    Parser.skipSpace
    if !(← Parser.isAt "\"") then Parser.fail .selectorNotLiteral
    let location ← Parser.location
    let selector ← Parser.string "\""
    match Selector.parse selector with
    | .error fault => Parser.failAt location (.selector fault)
    | .ok keys =>
      Parser.skipSpace
      if ← Parser.isAt "," then
        let _ ← Parser.advance
        let args ← arguments nested ")"
        return .hostCall selector keys args
      let _ ← Parser.expect [")"]
      return .hostCall selector keys []

def notRule : Operand where
  applies _ rest := rest.isKeyword "not"
  parse nested := do
    let _ ← Parser.word
    let x ← nested.expr comparisonLevel
    return .not x

def negateRule : Operand where
  applies _ rest := rest.isAt "-"
  parse nested := do
    let _ ← Parser.advance
    let x ← nested.expr unaryLevel
    return .negate x

def groupRule : Operand where
  applies _ rest := rest.isAt "("
  parse nested := do
    let _ ← Parser.advance
    let x ← nested.expr lowest
    Parser.skipSpace
    let _ ← Parser.expect [")"]
    return x

def arrayRule : Operand where
  applies _ rest := rest.isAt "["
  parse nested := do
    let _ ← Parser.advance
    let items ← arguments nested "]"
    return .array items

def variableRule : Operand where
  applies _ rest := rest.isNameStart && !reserved.contains rest.word
  parse _ := do
    let text ← name
    return .var text

/-- The left operand goes in front of the arguments of a call on the right. -/
def piped (x : Expr) : Expr → Expr
  | .call callee args => .pipe x callee args
  | function => .pipe x function []

def pipeRule : Operator where
  applies _ rest := rest.isAt "|>"
  precedence := pipeLevel
  parse nested left := do
    let _ ← Parser.advance
    let right ← nested.expr (pipeLevel + 1)
    return piped left right

def rangeRule : Operator where
  applies _ rest := rest.isAt ".."
  precedence := rangeLevel
  parse nested left := do
    let _ ← Parser.advance
    let right ← nested.expr (rangeLevel + 1)
    return .range left right

def orRule : Operator where
  applies _ rest := rest.isKeyword "or"
  precedence := orLevel
  parse nested left := do
    let _ ← Parser.word
    let right ← nested.expr (orLevel + 1)
    return .or left right

def andRule : Operator where
  applies _ rest := rest.isKeyword "and"
  precedence := andLevel
  parse nested left := do
    let _ ← Parser.word
    let right ← nested.expr (andLevel + 1)
    return .and left right

/-- Comparisons do not associate. -/
def compareRule : Operator where
  applies _ rest := rest.isAtAny comparisons
  precedence := comparisonLevel
  parse nested left := do
    let op ← Parser.advance
    let right ← nested.expr (comparisonLevel + 1)
    Parser.skipSpace
    if ← Parser.look fun _ rest => rest.isAtAny comparisons then
      Parser.fail .chainedComparison
    return .compare (CompareOp.ofSymbol op.text) left right

def arithmeticRule (symbols : List String) (level right : Precedence) : Operator where
  applies _ rest := rest.isAtAny symbols
  precedence := level
  parse nested left := do
    let op ← Parser.advance
    let x ← nested.expr right
    return .binary (ArithOp.ofSymbol op.text) left x

def callRule : Operator where
  applies _ rest := rest.isAt "("
  precedence := callLevel
  parse nested left := do
    let _ ← Parser.advance
    let args ← arguments nested ")"
    return .call left args

def indexRule : Operator where
  applies _ rest := rest.isAt "["
  precedence := callLevel
  parse nested left := do
    let _ ← Parser.advance
    let position ← nested.expr lowest
    Parser.skipSpace
    let _ ← Parser.expect ["]"]
    return .index left position

def memoizationRule : Statement where
  applies ctx rest := followedBy "MEMOIZATION" "=" ctx rest
  parse _ := do
    let _ ← Parser.word
    Parser.skipSpace
    let _ ← Parser.advance
    Parser.skipSpace
    if ← Parser.look fun _ rest => rest.isAnyKeyword ["true", "false"] then
      let word ← Parser.word
      endStatement
      return .memoize (word == "true")
    let seen ← Parser.look sight
    Parser.fail (.memoizationValue seen)

/-- A type may stand behind the name; it has no meaning. -/
def letRule : Statement where
  applies _ rest := rest.isKeyword "let"
  parse nested := do
    let _ ← Parser.word
    Parser.skipSpace
    if ← Parser.look fun _ rest => rest.isKeyword "mut" then
      let _ ← Parser.word
      Parser.skipSpace
    let target ← name
    Parser.skipSpace
    if ← Parser.isAt ":" then
      let _ ← Parser.advance
      Parser.skipSpace
      let _ ← name
      Parser.skipSpace
    let _ ← Parser.expect ["="]
    let x ← nested.expr lowest
    endStatement
    return .define target x

def beforeBranch (ctx : Context) (rest : Rest) : Rest :=
  rest.dropWhile fun lexeme =>
    isNewline ctx.aliases lexeme ||
      (!lexeme.synthetic && (lexeme.text == " " || lexeme.text == "\t"))

/-- A condition with its block and the branches that follow. Without a further
branch the line ends before it are left in place. -/
def branches (nested : Nested) : Nat → Parser Stmt
  | 0 => Parser.fail .nestedTooDeeply
  | fuel + 1 => do
    let _ ← Parser.word
    let test ← nested.expr lowest
    let yes ← block nested
    if ← Parser.look fun ctx rest => (beforeBranch ctx rest).isKeyword "elif" then
      let no ← fun ctx rest => branches nested fuel ctx (beforeBranch ctx rest)
      return .cond test yes [no]
    if ← Parser.look fun ctx rest => (beforeBranch ctx rest).isKeyword "else" then
      fun ctx rest => EStateM.Result.ok () (beforeBranch ctx rest).afterWord
      Parser.skipSpace
      if ← Parser.look fun _ rest => rest.isKeyword "if" then
        let no ← branches nested fuel
        return .cond test yes [no]
      let no ← block nested
      return .cond test yes no
    return .cond test yes []

def ifRule : Statement where
  applies _ rest := rest.isKeyword "if"
  parse nested := fun ctx rest => branches nested (rest.length + 1) ctx rest

def whileRule : Statement where
  applies _ rest := rest.isAnyKeyword ["while", "until"]
  parse nested := do
    let word ← Parser.word
    let test ← nested.expr lowest
    let body ← block nested
    return .whileLoop test body (word == "until")

def forRule : Statement where
  applies _ rest := rest.isKeyword "for"
  parse nested := do
    let _ ← Parser.word
    Parser.skipSpace
    let target ← name
    Parser.skipSpace
    Parser.expectKeyword "in"
    let items ← nested.expr lowest
    let body ← block nested
    return .forEach target items body

def wordRule (keyword : String) (statement : Stmt) : Statement where
  applies _ rest := rest.isKeyword keyword
  parse _ := do
    let _ ← Parser.word
    endStatement
    return statement

def returnRule : Statement where
  applies _ rest := rest.isKeyword "return"
  parse nested := do
    let _ ← Parser.word
    Parser.skipSpace
    let ends ← fun ctx rest =>
      match endStatement ctx rest with
      | .ok _ _ => EStateM.Result.ok true rest
      | .error _ _ => EStateM.Result.ok false rest
    if ends then return .returnWith none
    let x ← nested.expr lowest
    endStatement
    return .returnWith (some x)

def parameter (known : List String) : Parser String := do
  let location ← Parser.location
  let param ← name
  if known.contains param then Parser.failAt location (.duplicateName param)
  return param

def fnRule : Statement where
  applies _ rest := rest.isKeyword "fn"
  parse nested := do
    let _ ← Parser.word
    Parser.skipSpace
    let target ← name
    Parser.skipSpace
    let _ ← Parser.expect ["("]
    let params ← Parser.list "," ")" parameter
    let body ← block nested
    return .declare 0 target params body

def outputRule (word capability : String) : Statement where
  applies ctx rest := followedBy word "(" ctx rest
  parse nested := do
    let _ ← Parser.word
    Parser.skipSpace
    let _ ← Parser.advance
    let args ← arguments nested ")"
    endStatement
    return .expr (.hostCall capability [⟨"", capability⟩] args)

def pushRule : Statement where
  applies ctx rest := followedBy "push" "(" ctx rest
  parse nested := do
    let _ ← Parser.word
    Parser.skipSpace
    let location ← Parser.location
    let _ ← Parser.advance
    let args ← arguments nested ")"
    match args with
    | [array, x] =>
      endStatement
      return .push array x
    | _ => Parser.failAt location (.argumentCount "push" 2 args.length)

def assignment? (target value : Expr) : Option Stmt :=
  match target with
  | .var name => some (.assign name value true)
  | .index (.var name) position => some (.setItem name position value)
  | _ => none

/-- An assignment or an expression. Assigning to an unknown name defines it. -/
def assignRule : Statement where
  applies ctx rest := !ctx.atEnd rest && !(ctx.peek rest).synthetic
  parse nested := do
    let location ← Parser.location
    let x ← nested.expr lowest
    Parser.skipSpace
    if !(← Parser.isAt "=") then
      endStatement
      return .expr x
    let _ ← Parser.advance
    let value ← nested.expr lowest
    match assignment? x value with
    | some statement =>
      endStatement
      return statement
    | none => Parser.failAt location .assignmentTarget

def grammar : Grammar Expr Stmt where
  operands :=
    [numberRule, stringRule, constantRule, externRule, notRule, negateRule, groupRule, arrayRule,
     variableRule]
  operators :=
    [pipeRule, rangeRule, orRule, andRule, compareRule,
     arithmeticRule ["+", "-"] termLevel (termLevel + 1),
     arithmeticRule ["*", "/", "//", "%"] factorLevel (factorLevel + 1),
     arithmeticRule ["**"] powerLevel powerLevel,
     callRule, indexRule]
  statements :=
    [memoizationRule, letRule, ifRule, whileRule, forRule, wordRule "break" .breakLoop,
     wordRule "continue" .continueLoop, returnRule, fnRule, outputRule "print" "print_native",
     outputRule "write" "write_native", pushRule, assignRule]

/-- The rules that `grammar` lists, by name. -/
inductive IsOperand : Operand → Prop where
  | number : IsOperand numberRule
  | string : IsOperand stringRule
  | constant : IsOperand constantRule
  | hostCall : IsOperand externRule
  | not : IsOperand notRule
  | negate : IsOperand negateRule
  | group : IsOperand groupRule
  | array : IsOperand arrayRule
  | var : IsOperand variableRule

inductive IsOperator : Operator → Prop where
  | pipe : IsOperator pipeRule
  | range : IsOperator rangeRule
  | or : IsOperator orRule
  | and : IsOperator andRule
  | compare : IsOperator compareRule
  | sum : IsOperator (arithmeticRule ["+", "-"] termLevel (termLevel + 1))
  | product : IsOperator (arithmeticRule ["*", "/", "//", "%"] factorLevel (factorLevel + 1))
  | power : IsOperator (arithmeticRule ["**"] powerLevel powerLevel)
  | call : IsOperator callRule
  | index : IsOperator indexRule

inductive IsStatement : Statement → Prop where
  | memoize : IsStatement memoizationRule
  | define : IsStatement letRule
  | cond : IsStatement ifRule
  | whileLoop : IsStatement whileRule
  | forEach : IsStatement forRule
  | breakLoop : IsStatement (wordRule "break" .breakLoop)
  | continueLoop : IsStatement (wordRule "continue" .continueLoop)
  | returnWith : IsStatement returnRule
  | declare : IsStatement fnRule
  | print : IsStatement (outputRule "print" "print_native")
  | write : IsStatement (outputRule "write" "write_native")
  | push : IsStatement pushRule
  | assign : IsStatement assignRule

theorem isOperand : ∀ rule ∈ grammar.operands, IsOperand rule := by
  simp only [grammar, List.forall_mem_cons]
  exact ⟨.number, .string, .constant, .hostCall, .not, .negate, .group, .array, .var, List.forall_mem_nil _⟩

theorem isOperator : ∀ rule ∈ grammar.operators, IsOperator rule := by
  simp only [grammar, List.forall_mem_cons]
  exact ⟨.pipe, .range, .or, .and, .compare, .sum, .product, .power, .call, .index, List.forall_mem_nil _⟩

theorem isStatement : ∀ rule ∈ grammar.statements, IsStatement rule := by
  simp only [grammar, List.forall_mem_cons]
  exact ⟨.memoize, .define, .cond, .whileLoop, .forEach, .breakLoop, .continueLoop, .returnWith, .declare, .print,
    .write, .push, .assign, List.forall_mem_nil _⟩

end ScriptKernel.Lumen
