import ScriptKernel.Parse.Grammar
import ScriptKernel.Program.Basic
import ScriptKernel.Layout.Basic

/-!
The grammar of MiniRust. Blocks stand in braces, layout has no meaning, and
statements may be divided by semicolons.
-/

namespace ScriptKernel.MiniRust

abbrev Nested := ScriptKernel.Nested Expr Stmt
abbrev Operand := OperandRule Expr Stmt
abbrev Operator := OperatorRule Expr Stmt
abbrev Statement := StatementRule Expr Stmt

def table : Table :=
  Table.ofEntries
    ["==", "!=", "<=", ">=", "&&", "||", "+=", "-=", "*=", "/=", "%=", "->", "//"]

def layout : Layout := .endMarker

def reserved : List String :=
  ["let", "mut", "fn", "if", "else", "while", "loop", "break", "continue", "return", "true",
   "false"]

def skipFrom (semicolons : Bool) : Bool → Rest → Rest
  | _, [] => []
  | true, lexeme :: rest =>
    if lexeme.synthetic then lexeme :: rest
    else skipFrom semicolons (lexeme.text != "\n") rest
  | false, lexeme :: rest =>
    if lexeme.isSpace true then skipFrom semicolons false rest
    else if lexeme.synthetic then lexeme :: rest
    else if lexeme.text = "//" then skipFrom semicolons true rest
    else if semicolons && lexeme.text == ";" then skipFrom semicolons false rest
    else lexeme :: rest

def skipSpace (rest : Rest) : Rest :=
  skipFrom false false rest

def skipTrivia (rest : Rest) : Rest :=
  skipFrom true false rest

def context (tokens : List Lexeme) (file : String) (maxDepth : Int) : Context :=
  { past := Lexeme.past tokens
    file := file
    skipSpace := skipSpace
    skipTrivia := skipTrivia
    maxDepth := maxDepth }

def lowest : Precedence := 0
def orLevel : Precedence := 1
def andLevel : Precedence := 2
def comparisonLevel : Precedence := 3
def termLevel : Precedence := 4
def factorLevel : Precedence := 5
def unaryLevel : Precedence := 6
def callLevel : Precedence := 7

def name : Parser String := Parser.name reserved

def arguments (nested : Nested) : Parser (List Expr) :=
  Parser.list "," ")" fun _ => nested.expr lowest

def block (nested : Nested) : Parser (List Stmt) := do
  Parser.skipSpace
  let _ ← Parser.expect ["\x7b"]
  let body ← Grammar.block nested fun _ rest => rest.isAt "\x7d"
  let _ ← Parser.advance
  return body

def isBang (keyword : String) (rest : Rest) : Bool :=
  rest.isKeyword keyword && Rest.isAt "!" rest.afterWord

/-- The arguments of `name!(…)`. A string literal in front is a template for
the others. -/
def bangArguments (nested : Nested) : Parser Expr := do
  let _ ← Parser.word
  let _ ← Parser.advance
  Parser.skipSpace
  let _ ← Parser.expect ["("]
  let args ← arguments nested
  match args with
  | [] => return .literal (.str "")
  | .literal (.str template) :: rest => return .format template rest
  | [x] => return x
  | _ => Parser.fail .formatNotLiteral

def skipAngles (ctx : Context) (depth : Int) : Rest → Rest
  | [] => []
  | lexeme :: rest =>
    if ctx.atEnd (lexeme :: rest) then lexeme :: rest
    else
      let depth :=
        if lexeme.text = "<" then depth + 1 else if lexeme.text = ">" then depth - 1 else depth
      if depth = 0 then rest else skipAngles ctx depth rest

/-- Skips a type: a word with references before it and arguments in angle
brackets behind it. -/
def skipType : Parser Unit := fun ctx rest =>
  let rest := (ctx.skipSpace rest).dropWhile fun lexeme =>
    !lexeme.synthetic && lexeme.text == "&"
  let rest := Rest.afterWord rest
  .ok () (if Rest.isAt "<" rest then skipAngles ctx 0 rest else rest)

def intRule : Operand where
  applies _ rest := rest.isDigitStart
  parse _ := do
    let text ← Parser.number false
    let n := Decimal.digitsValue text.toList
    if (n : Int) ≤ Int64.maxValue.toInt then return .literal (.int (Int64.ofNat n))
    Parser.fail (.integerTooLarge text)

def strRule : Operand where
  applies _ rest := rest.isAt "\""
  parse _ := do
    let text ← Parser.string "\""
    return .literal (.str text)

def flagRule : Operand where
  applies _ rest := rest.isAnyKeyword ["true", "false"]
  parse _ := do
    let word ← Parser.word
    return .literal (.flag (word == "true"))

def formatRule : Operand where
  applies _ rest := isBang "format" rest
  parse nested := bangArguments nested

def negateRule : Operand where
  applies _ rest := rest.isAt "-"
  parse nested := do
    let _ ← Parser.advance
    let x ← nested.expr unaryLevel
    return .intNegate x

def notRule : Operand where
  applies _ rest := rest.isAt "!"
  parse nested := do
    let _ ← Parser.advance
    let x ← nested.expr unaryLevel
    return .flagNot x

def groupRule : Operand where
  applies _ rest := rest.isAt "("
  parse nested := do
    let _ ← Parser.advance
    let x ← nested.expr lowest
    Parser.skipSpace
    let _ ← Parser.expect [")"]
    return x

def variableRule : Operand where
  applies _ rest := rest.isNameStart && !reserved.contains rest.word
  parse _ := do
    let text ← name
    return .var text

def orRule : Operator where
  applies _ rest := rest.isAt "||"
  precedence := orLevel
  parse nested left := do
    let _ ← Parser.advance
    let right ← nested.expr (orLevel + 1)
    return .or left right

def andRule : Operator where
  applies _ rest := rest.isAt "&&"
  precedence := andLevel
  parse nested left := do
    let _ ← Parser.advance
    let right ← nested.expr (andLevel + 1)
    return .and left right

def compareRule : Operator where
  applies _ rest := rest.isAtAny ["==", "!=", "<=", ">=", "<", ">"]
  precedence := comparisonLevel
  parse nested left := do
    let op ← Parser.advance
    let right ← nested.expr (comparisonLevel + 1)
    return .intCompare (CompareOp.ofSymbol op.text) left right

def arithmeticRule (symbols : List String) (level : Precedence) : Operator where
  applies _ rest := rest.isAtAny symbols
  precedence := level
  parse nested left := do
    let op ← Parser.advance
    let right ← nested.expr (level + 1)
    return .intBinary (ArithOp.ofSymbol op.text) left right

def callRule : Operator where
  applies _ rest := rest.isAt "("
  precedence := callLevel
  parse nested left := do
    let _ ← Parser.advance
    let args ← arguments nested
    return .call left args

def letRule : Statement where
  applies _ rest := rest.isKeyword "let"
  parse nested := do
    let _ ← Parser.word
    Parser.skipSpace
    if ← Parser.look fun _ rest => rest.isKeyword "mut" then
      let _ ← Parser.word
      Parser.skipSpace
    let target ← name
    Parser.skipSpace
    if ← Parser.isAt ":" then
      let _ ← Parser.advance
      skipType
      Parser.skipSpace
    let _ ← Parser.expect ["="]
    let x ← nested.expr lowest
    return .define target x

def parameter (known : List String) : Parser String := do
  let location ← Parser.location
  let param ← name
  if known.contains param then Parser.failAt location (.duplicateName param)
  Parser.skipSpace
  if ← Parser.isAt ":" then
    let _ ← Parser.advance
    skipType
  return param

def fnRule : Statement where
  applies _ rest := rest.isKeyword "fn"
  parse nested := do
    let _ ← Parser.word
    Parser.skipSpace
    let target ← name
    Parser.skipSpace
    let _ ← Parser.expect ["("]
    let params ← Parser.list "," ")" parameter
    Parser.skipSpace
    if ← Parser.isAt "->" then
      let _ ← Parser.advance
      skipType
    let body ← block nested
    return .declare 0 target params body

/-- A condition with its block and the branches that follow. Without a further
branch the blanks before it are left in place. -/
def branches (nested : Nested) : Nat → Parser Stmt
  | 0 => Parser.fail .nestedTooDeeply
  | fuel + 1 => do
    let _ ← Parser.word
    let test ← nested.expr lowest
    let yes ← block nested
    if ← Parser.look fun ctx rest => !(ctx.skipSpace rest).isKeyword "else" then
      return .cond test yes []
    Parser.skipSpace
    let _ ← Parser.word
    Parser.skipSpace
    if ← Parser.look fun _ rest => rest.isKeyword "if" then
      let no ← branches nested fuel
      return .cond test yes [no]
    let no ← block nested
    return .cond test yes no

def ifRule : Statement where
  applies _ rest := rest.isKeyword "if"
  parse nested := fun ctx rest => branches nested (rest.length + 1) ctx rest

def whileRule : Statement where
  applies _ rest := rest.isKeyword "while"
  parse nested := do
    let _ ← Parser.word
    let test ← nested.expr lowest
    let body ← block nested
    return .whileLoop test body false

def loopRule : Statement where
  applies _ rest := rest.isKeyword "loop"
  parse nested := do
    let _ ← Parser.word
    let body ← block nested
    return .endless body

def wordRule (keyword : String) (statement : Stmt) : Statement where
  applies _ rest := rest.isKeyword keyword
  parse _ := do
    let _ ← Parser.word
    return statement

def returnRule : Statement where
  applies _ rest := rest.isKeyword "return"
  parse nested := do
    let _ ← Parser.word
    Parser.skipSpace
    if ← Parser.look fun ctx rest =>
        Rest.isAt ";" rest || Rest.isAt "\x7d" rest || ctx.atEnd rest then
      return .returnWith none
    let x ← nested.expr lowest
    return .returnWith (some x)

def output (capability : String) (x : Expr) : Stmt :=
  .expr (.hostCall capability [⟨"", capability⟩] [x])

def printBangRule (word capability : String) : Statement where
  applies _ rest := isBang word rest
  parse nested := do
    let x ← bangArguments nested
    return output capability x

def printRule : Statement where
  applies ctx rest := rest.isKeyword "print" && Rest.isAt "(" (ctx.skipSpace rest.afterWord)
  parse nested := do
    let _ ← Parser.word
    Parser.skipSpace
    let _ ← Parser.advance
    let args ← arguments nested
    match args with
    | [x] => return output "print_native" x
    | _ => Parser.fail (.argumentCount "print" 1 args.length)

def blockRule : Statement where
  applies _ rest := rest.isAt "\x7b"
  parse nested := do
    let body ← block nested
    return .block body

def compound? (text : String) : Option ArithOp :=
  if text = "+=" then some .add
  else if text = "-=" then some .sub
  else if text = "*=" then some .mul
  else if text = "/=" then some .div
  else if text = "%=" then some .mod
  else none

def assignment? : Rest → Option (Option ArithOp)
  | [] => none
  | lexeme :: _ =>
    if lexeme.synthetic then none
    else if lexeme.text = "=" then some none
    else (compound? lexeme.text).map some

/-- An assignment or an expression. Assigning never defines a name. -/
def assignRule : Statement where
  applies ctx rest := !ctx.atEnd rest && !(ctx.peek rest).synthetic
  parse nested := do
    let location ← Parser.location
    let x ← nested.expr lowest
    Parser.skipSpace
    match ← Parser.look fun _ rest => assignment? rest, x with
    | none, _ => return .expr x
    | some op, .var target =>
      let _ ← Parser.advance
      let value ← nested.expr lowest
      match op with
      | none => return .assign target value false
      | some op => return .assign target (.intBinary op (.var target) value) false
    | some _, _ => Parser.failAt location .assignmentTarget

def grammar : Grammar Expr Stmt where
  operands :=
    [intRule, strRule, flagRule, formatRule, negateRule, notRule, groupRule, variableRule]
  operators :=
    [orRule, andRule, compareRule, arithmeticRule ["+", "-"] termLevel,
     arithmeticRule ["*", "/", "%"] factorLevel, callRule]
  statements :=
    [letRule, fnRule, ifRule, whileRule, loopRule, wordRule "break" .breakLoop,
     wordRule "continue" .continueLoop, returnRule, printBangRule "println" "print_native",
     printBangRule "print" "write_native", printRule, blockRule, assignRule]

/-- The rules that `grammar` lists, by name. -/
inductive IsOperand : Operand → Prop where
  | int : IsOperand intRule
  | str : IsOperand strRule
  | flag : IsOperand flagRule
  | format : IsOperand formatRule
  | negate : IsOperand negateRule
  | not : IsOperand notRule
  | group : IsOperand groupRule
  | var : IsOperand variableRule

inductive IsOperator : Operator → Prop where
  | or : IsOperator orRule
  | and : IsOperator andRule
  | compare : IsOperator compareRule
  | sum : IsOperator (arithmeticRule ["+", "-"] termLevel)
  | product : IsOperator (arithmeticRule ["*", "/", "%"] factorLevel)
  | call : IsOperator callRule

inductive IsStatement : Statement → Prop where
  | define : IsStatement letRule
  | declare : IsStatement fnRule
  | cond : IsStatement ifRule
  | whileLoop : IsStatement whileRule
  | endless : IsStatement loopRule
  | breakLoop : IsStatement (wordRule "break" .breakLoop)
  | continueLoop : IsStatement (wordRule "continue" .continueLoop)
  | returnWith : IsStatement returnRule
  | println : IsStatement (printBangRule "println" "print_native")
  | printBang : IsStatement (printBangRule "print" "write_native")
  | print : IsStatement printRule
  | block : IsStatement blockRule
  | assign : IsStatement assignRule

theorem isOperand : ∀ rule ∈ grammar.operands, IsOperand rule := by
  simp only [grammar, List.forall_mem_cons]
  exact ⟨.int, .str, .flag, .format, .negate, .not, .group, .var, List.forall_mem_nil _⟩

theorem isOperator : ∀ rule ∈ grammar.operators, IsOperator rule := by
  simp only [grammar, List.forall_mem_cons]
  exact ⟨.or, .and, .compare, .sum, .product, .call, List.forall_mem_nil _⟩

theorem isStatement : ∀ rule ∈ grammar.statements, IsStatement rule := by
  simp only [grammar, List.forall_mem_cons]
  exact ⟨.define, .declare, .cond, .whileLoop, .endless, .breakLoop, .continueLoop, .returnWith, .println,
    .printBang, .print, .block, .assign, List.forall_mem_nil _⟩

end ScriptKernel.MiniRust
