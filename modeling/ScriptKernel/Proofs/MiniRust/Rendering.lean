import ScriptKernel.MiniRust.Grammar
import ScriptKernel.Proofs.Lumen.Rendering

/-!
Writing MiniRust programs as source text. Every statement starts a line with
four spaces for every block around it, a simple one ends with a semicolon, a
block stands in braces, and an expression is put in parentheses exactly where
it binds looser than its place requires.
-/

namespace ScriptKernel.MiniRust

open Lumen (parenthesized commas quoted)

inductive Infix where
  | or
  | and
  | compare (op : CompareOp)
  | arith (op : ArithOp)
deriving Repr, DecidableEq

namespace Infix

def tree : Infix → Expr → Expr → Expr
  | or => .or
  | and => .and
  | compare op => .intCompare op
  | arith op => .intBinary op

def symbol : Infix → String
  | or => "||"
  | and => "&&"
  | compare op => op.symbol
  | arith op => op.symbol

def level : Infix → Precedence
  | or => orLevel
  | and => andLevel
  | compare _ => comparisonLevel
  | arith .add | arith .sub => termLevel
  | arith _ => factorLevel

end Infix

def level : Expr → Precedence
  | .or _ _ => Infix.or.level
  | .and _ _ => Infix.and.level
  | .intCompare op _ _ => (Infix.compare op).level
  | .intBinary op _ _ => (Infix.arith op).level
  | .intNegate _ | .flagNot _ => unaryLevel
  | _ => callLevel

def grouped (required : Precedence) (x : Expr) (text : List Char) : List Char :=
  if level x < required then parenthesized text else text

/-- The text of an expression that is called. The word `print` before an
opening parenthesis starts a statement of its own. -/
def called (x : Expr) (text : List Char) : List Char :=
  match x with
  | .var name => if name = "print" then parenthesized text else text
  | _ => grouped callLevel x text

def constant : Value → List Char
  | .int n => (Text.decimal n.toInt).toList
  | .flag b => (Value.boolText b).toList
  | .str text => quoted text
  | _ => []

def Infix.spell (op : Infix) (l r : Expr) (left right : List Char) : List Char :=
  grouped op.level l left ++ ' ' :: op.symbol.toList ++ ' ' :: grouped (op.level + 1) r right

mutual

/-- The text of an expression. Only MiniRust's forms have one. -/
def spell : Expr → List Char
  | .literal v => constant v
  | .var name => name.toList
  | .and l r => Infix.and.spell l r (spell l) (spell r)
  | .or l r => Infix.or.spell l r (spell l) (spell r)
  | .intCompare op l r => (Infix.compare op).spell l r (spell l) (spell r)
  | .intBinary op l r => (Infix.arith op).spell l r (spell l) (spell r)
  | .intNegate x => '-' :: grouped unaryLevel x (spell x)
  | .flagNot x => '!' :: grouped unaryLevel x (spell x)
  | .call f args => called f (spell f) ++ parenthesized (commas (spells args))
  | .format template args => "format!".toList ++ parenthesized (commas (quoted template :: spells args))
  | _ => []

def spells : List Expr → List (List Char)
  | [] => []
  | x :: xs => spell x :: spells xs

end

theorem spells_eq_map (xs : List Expr) : spells xs = xs.map spell := by
  induction xs with
  | nil => rfl
  | cons x xs ih => rw [spells, ih, List.map_cons]

theorem spell_tree (op : Infix) (l r : Expr) : spell (op.tree l r) = op.spell l r (spell l) (spell r) := by
  cases op <;> rfl

theorem level_tree (op : Infix) (l r : Expr) : level (op.tree l r) = op.level := by
  cases op <;> rfl

/-- The arguments with which a macro stands for the expression. A macro without
arguments stands for the empty text, and a template is filled by it. -/
def macroArgs : Expr → List Expr
  | .literal (.str _) => []
  | .format template args => .literal (.str template) :: args
  | x => [x]

/-- The text of an expression that is a statement. Calls of the host come from
the forms that print. -/
def expression : Expr → List Char
  | .hostCall selector _ [x] =>
    if selector = "print_native" then "print".toList ++ parenthesized (spell x)
    else "print!".toList ++ parenthesized (commas (spells (macroArgs x)))
  | x => spell x

def indent (level : Nat) : List Char :=
  List.replicate (4 * level) ' '

def braces (level : Nat) (lines : List Char) : List Char :=
  '\x7b' :: '\n' :: lines ++ indent level ++ ['\x7d']

mutual

def statement (level : Nat) : Stmt → List Char
  | .expr x => expression x ++ [';']
  | .define name x => "let ".toList ++ name.toList ++ " = ".toList ++ spell x ++ [';']
  | .assign name x _ => name.toList ++ " = ".toList ++ spell x ++ [';']
  | .block body => braces level (lines (level + 1) body)
  | .cond test yes no =>
    "if ".toList ++ spell test ++ ' ' :: braces level (lines (level + 1) yes) ++ otherwise level no
  | .whileLoop test body _ => "while ".toList ++ spell test ++ ' ' :: braces level (lines (level + 1) body)
  | .endless body => "loop ".toList ++ braces level (lines (level + 1) body)
  | .breakLoop => "break;".toList
  | .continueLoop => "continue;".toList
  | .returnWith none => "return;".toList
  | .returnWith (some x) => "return ".toList ++ spell x ++ [';']
  | .declare _ name params body =>
    "fn ".toList ++ name.toList ++ parenthesized (commas (params.map String.toList)) ++
      ' ' :: braces level (lines (level + 1) body)
  | _ => []

def lines (level : Nat) : List Stmt → List Char
  | [] => []
  | s :: rest => indent level ++ statement level s ++ '\n' :: lines level rest

/-- The text of an alternative. A condition alone is a further branch. -/
def otherwise (level : Nat) : List Stmt → List Char
  | [] => []
  | [.cond test yes no] => " else ".toList ++ statement level (.cond test yes no)
  | s :: rest =>
    " else ".toList ++ braces level
      (indent (level + 1) ++ statement (level + 1) s ++ '\n' :: lines (level + 1) rest)

end

def render (program : List Stmt) : String :=
  String.ofList (lines 0 program)

end ScriptKernel.MiniRust
