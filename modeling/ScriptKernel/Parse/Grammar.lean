import ScriptKernel.Parse.Word

/-!
Operator-precedence parsing for any grammar. A grammar is three lists of
rules; the first rule of a list that applies to what follows is taken. An
expression is an operand followed by operators that bind at least as tightly
as asked for. Rules parse their parts through the parsers they are handed, so
the recursion and its depth bound are here and nowhere else.
-/

namespace ScriptKernel

/-- How tightly an operator binds. Neighbouring levels differ by one. -/
abbrev Precedence := Int

def Precedence.names : List String :=
  ["Lowest", "Range", "Pipe", "Logic", "Comparison", "Term", "Factor", "Power", "Unary", "Call"]

def Precedence.render (p : Precedence) : String :=
  match p with
  | .ofNat n =>
    match Precedence.names[n]? with
    | some name => name
    | none => "Precedence(" ++ Text.decimal p ++ ")"
  | .negSucc _ => "Precedence(" ++ Text.decimal p ++ ")"

/-- The parsers through which a rule reads its parts. -/
structure Nested (ε σ : Type) where
  expr : Precedence → Parser ε
  statement : Parser σ

structure OperandRule (ε σ : Type) where
  applies : Context → Rest → Bool
  parse : Nested ε σ → Parser ε

structure OperatorRule (ε σ : Type) where
  applies : Context → Rest → Bool
  precedence : Precedence
  parse : Nested ε σ → ε → Parser ε

structure StatementRule (ε σ : Type) where
  applies : Context → Rest → Bool
  parse : Nested ε σ → Parser σ

structure Grammar (ε σ : Type) where
  operands : List (OperandRule ε σ)
  operators : List (OperatorRule ε σ)
  statements : List (StatementRule ε σ)

namespace Grammar

variable {ε σ : Type} (g : Grammar ε σ)

def operatorsFrom (nested : Nested ε σ) (least : Precedence) : Nat → ε → Parser ε
  | 0, _ => Parser.fail .nestedTooDeeply
  | fuel + 1, left => fun ctx rest =>
    let rest := ctx.skipSpace rest
    match g.operators.find? (·.applies ctx rest) with
    | none => .ok left rest
    | some rule =>
      if rule.precedence < least then .ok left rest
      else match rule.parse nested left ctx rest with
        | .ok left rest => operatorsFrom nested least fuel left ctx rest
        | .error e rest => .error e rest

def exprWith (nested : Nested ε σ) (least : Precedence) : Parser ε := fun ctx rest =>
  let rest := ctx.skipSpace rest
  match g.operands.find? (·.applies ctx rest) with
  | none => Parser.fail (.unknownExpression (ctx.sight rest)) ctx rest
  | some rule =>
    match rule.parse nested ctx rest with
    | .ok left rest => g.operatorsFrom nested least (rest.length + 1) left ctx rest
    | .error e rest => .error e rest

def statementWith (nested : Nested ε σ) : Parser σ := fun ctx rest =>
  match g.statements.find? (·.applies ctx rest) with
  | none => Parser.fail (.unknownStatement (ctx.sight rest)) ctx rest
  | some rule => rule.parse nested ctx rest

def guarded {α : Type} (depth : Nat) (parser : Parser α) : Parser α := fun ctx rest =>
  if 0 < ctx.maxDepth ∧ ctx.maxDepth < depth then Parser.fail .nestedTooDeeply ctx rest
  else parser ctx rest

/-- The parsers at a nesting depth. Each nested call consumes a lexeme before
the next but one, so twice the length of the input is fuel enough. -/
def nestedAt : Nat → Nat → Nested ε σ
  | 0, _ => { expr := fun _ => Parser.fail .nestedTooDeeply, statement := Parser.fail .nestedTooDeeply }
  | fuel + 1, depth =>
    { expr := fun least => guarded (depth + 1)
        (fun ctx rest => g.exprWith (nestedAt fuel (depth + 1)) least ctx rest)
      statement := guarded (depth + 1)
        (fun ctx rest => g.statementWith (nestedAt fuel (depth + 1)) ctx rest) }

/-- A statement of a sequence. One that consumed nothing would come again
without end. -/
def step (statement : Parser σ) : Parser σ := fun ctx rest =>
  match statement ctx rest with
  | .error e rest => .error e rest
  | .ok s after =>
    if after.length = rest.length then
      Parser.fail (.nothingConsumed (ctx.sight after)) ctx after
    else .ok s after

def blockFrom (statement : Parser σ) (stop : Context → Rest → Bool) :
    Nat → List σ → Parser (List σ)
  | 0, _ => Parser.fail .nestedTooDeeply
  | fuel + 1, done => fun ctx rest =>
    let rest := ctx.skipTrivia rest
    if stop ctx rest then .ok done.reverse rest
    else if ctx.atEnd rest then Parser.fail .unfinishedBlock ctx rest
    else match step statement ctx rest with
      | .ok s rest => blockFrom statement stop fuel (s :: done) ctx rest
      | .error e rest => .error e rest

def block (nested : Nested ε σ) (stop : Context → Rest → Bool) : Parser (List σ) :=
  fun ctx rest => blockFrom nested.statement stop (rest.length + 1) [] ctx rest

def program : Parser (List σ) := fun ctx rest =>
  blockFrom (g.nestedAt (2 * rest.length + 4) 0).statement Context.atEnd (rest.length + 1) [] ctx rest

def parse (ctx : Context) (tokens : List Lexeme) : Except ParseError (List σ) :=
  match g.program ctx tokens with
  | .ok statements _ => .ok statements
  | .error e _ => .error e

end Grammar

def Context.of (tokens : List Lexeme) (file : String) (aliases : Aliases) : Context :=
  { past := Lexeme.past tokens, file := file, aliases := aliases }

end ScriptKernel
