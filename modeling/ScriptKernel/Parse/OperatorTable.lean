import ScriptKernel.Parse.Grammar

/-!
Grammars given by a table of operators: words and parenthesised groups are the
atoms, and each operator stands before, between or behind its operands.
-/

namespace ScriptKernel.OperatorTable

/-- How an operator before its operand behaves. Two of the kinds serve to show
that a rule that gives up is reported like any other fault. -/
inductive PrefixKind where
  | ordinary
  | givesUp
  | fails
deriving Repr, DecidableEq

structure PrefixOperator where
  symbol : String
  precedence : Precedence
  kind : PrefixKind
deriving Repr, DecidableEq

inductive Associativity where
  | left
  | right
  /-- The operator has no right operand. -/
  | postfix_
deriving Repr, DecidableEq

structure InfixOperator where
  symbol : String
  precedence : Precedence
  associativity : Associativity
deriving Repr, DecidableEq

inductive Tree where
  | word (text : String)
  | group (inner : Tree)
  | before (symbol : String) (operand : Tree)
  | between (left : Tree) (symbol : String) (right : Tree)
  | behind (operand : Tree) (symbol : String)
deriving Repr, DecidableEq

def Tree.render : Tree → String
  | word text => text
  | group inner => "[" ++ inner.render ++ "]"
  | before symbol operand => "(" ++ symbol ++ operand.render ++ ")"
  | between left symbol right =>
    "(" ++ left.render ++ " " ++ symbol ++ " " ++ right.render ++ ")"
  | behind operand symbol => "(" ++ operand.render ++ symbol ++ ")"

inductive Sentence where
  | mark
  | block (body : List Sentence)
  | expr (tree : Tree)

def Sentence.render : Sentence → String
  | mark => "@"
  | block body => "\x7b" ++ Text.join "; " (body.map Sentence.render) ++ "\x7d"
  | expr tree => tree.render

abbrev Operand := OperandRule Tree Sentence
abbrev Operator := OperatorRule Tree Sentence
abbrev Statement := StatementRule Tree Sentence

def lowest : Precedence := 0

def prefixRule (op : PrefixOperator) : Operand where
  applies _ rest := rest.isAt op.symbol
  parse nested :=
    match op.kind with
    | .givesUp => Parser.fail (.internal ("handler gave up on " ++ op.symbol))
    | .fails => Parser.fail (.internal ("handler failed on " ++ op.symbol))
    | .ordinary => do
      let _ ← Parser.advance
      let operand ← nested.expr op.precedence
      return .before op.symbol operand

def groupRule : Operand where
  applies ctx rest := ctx.isStructural .leftParen rest
  parse nested := do
    let _ ← Parser.advance
    let inner ← nested.expr lowest
    Parser.skipSpace
    let _ ← Parser.expectStructural .rightParen
    return .group inner

def wordRule : Operand where
  applies _ rest := rest.word != ""
  parse _ := do
    let text ← Parser.word
    return .word text

def infixRule (op : InfixOperator) : Operator where
  applies _ rest := rest.isAt op.symbol
  precedence := op.precedence
  parse nested left := do
    let _ ← Parser.advance
    match op.associativity with
    | .postfix_ => return .behind left op.symbol
    | .right => do
      let right ← nested.expr op.precedence
      return .between left op.symbol right
    | .left => do
      let right ← nested.expr (op.precedence + 1)
      return .between left op.symbol right

def markRule : Statement where
  applies _ rest := rest.isAt "@"
  parse _ := return .mark

def blockRule : Statement where
  applies _ rest := rest.isAt "\x7b"
  parse nested := do
    let _ ← Parser.advance
    let body ← Grammar.block nested fun _ rest => rest.isAt "\x7d"
    let _ ← Parser.advance
    return .block body

def exprRule (always : Bool) : Statement where
  applies _ rest := always || rest.word != ""
  parse nested := do
    let tree ← nested.expr lowest
    Parser.skipSpace
    let _ ← Parser.expect [";", "!"]
    return .expr tree

def grammar (prefixes : List PrefixOperator) (infixes : List InfixOperator) (always : Bool) :
    Grammar Tree Sentence where
  operands := prefixes.map prefixRule ++ [groupRule, wordRule]
  operators := infixes.map infixRule
  statements := [markRule, blockRule, exprRule always]

end ScriptKernel.OperatorTable
