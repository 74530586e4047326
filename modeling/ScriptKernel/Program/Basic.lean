import ScriptKernel.Value.Basic
import ScriptKernel.Capability.Key

/-!
Programs as trees. One type of expressions and one of statements serve both
languages: what they share has one node, and what only one of them has is a
node of its own.
-/

namespace ScriptKernel

/-- Arithmetic operators of both languages. A host may build a tree with an
operator that no language has. -/
inductive ArithOp where
  | add
  | sub
  | mul
  | div
  | floorDiv
  | mod
  | pow
  | other (symbol : String)
deriving Repr, DecidableEq

namespace ArithOp

def symbol : ArithOp → String
  | add => "+"
  | sub => "-"
  | mul => "*"
  | div => "/"
  | floorDiv => "//"
  | mod => "%"
  | pow => "**"
  | other symbol => symbol

def ofSymbol (text : String) : ArithOp :=
  if text = "+" then add
  else if text = "-" then sub
  else if text = "*" then mul
  else if text = "/" then div
  else if text = "//" then floorDiv
  else if text = "%" then mod
  else if text = "**" then pow
  else other text

theorem symbol_ofSymbol (text : String) : (ofSymbol text).symbol = text := by
  unfold ofSymbol
  repeat (split; · simp_all [symbol])
  rfl

end ArithOp

inductive CompareOp where
  | eq
  | ne
  | lt
  | le
  | gt
  | ge
  | other (symbol : String)
deriving Repr, DecidableEq

namespace CompareOp

def symbol : CompareOp → String
  | eq => "=="
  | ne => "!="
  | lt => "<"
  | le => "<="
  | gt => ">"
  | ge => ">="
  | other symbol => symbol

def ofSymbol (text : String) : CompareOp :=
  if text = "==" then eq
  else if text = "!=" then ne
  else if text = "<" then lt
  else if text = "<=" then le
  else if text = ">" then gt
  else if text = ">=" then ge
  else other text

theorem symbol_ofSymbol (text : String) : (ofSymbol text).symbol = text := by
  unfold ofSymbol
  repeat (split; · simp_all [symbol])
  rfl

end CompareOp

inductive Expr where
  | literal (v : Value)
  | var (name : String)
  /-- The right operand is evaluated only if the left one does not decide. -/
  | and (left right : Expr)
  | or (left right : Expr)
  | call (callee : Expr) (args : List Expr)
  /-- A host operation: the first of the keys that is there. -/
  | hostCall (selector : String) (keys : List Key) (args : List Expr)
  | binary (op : ArithOp) (left right : Expr)
  | compare (op : CompareOp) (left right : Expr)
  | negate (x : Expr)
  | not (x : Expr)
  | range (start stop : Expr)
  | array (items : List Expr)
  | index (x position : Expr)
  /-- A call with `x` in front of the arguments. -/
  | pipe (x function : Expr) (args : List Expr)
  /-- Arithmetic on checked integers. -/
  | intBinary (op : ArithOp) (left right : Expr)
  | intCompare (op : CompareOp) (left right : Expr)
  | intNegate (x : Expr)
  | flagNot (x : Expr)
  /-- A template whose empty braces stand for the arguments. -/
  | format (template : String) (args : List Expr)
deriving Inhabited

inductive Stmt where
  | expr (x : Expr)
  /-- Binds a name in the innermost scope. -/
  | define (name : String) (x : Expr)
  /-- Rebinds a name where it is bound. -/
  | assign (name : String) (x : Expr) (orDefine : Bool)
  | block (body : List Stmt)
  /-- An empty alternative does nothing. -/
  | cond (test : Expr) (yes no : List Stmt)
  /-- Runs while the test holds, or until it holds when negated. -/
  | whileLoop (test : Expr) (body : List Stmt) (negated : Bool)
  | endless (body : List Stmt)
  | forEach (name : String) (items : Expr) (body : List Stmt)
  | breakLoop
  | continueLoop
  /-- Without an expression the language's empty value is returned. -/
  | returnWith (x : Option Expr)
  /-- A function declaration. The label is given when the program is loaded. -/
  | declare (label : Nat) (name : String) (params : List String) (body : List Stmt)
  | setItem (name : String) (position x : Expr)
  | push (array x : Expr)
  | memoize (on : Bool)
deriving Inhabited

structure Function where
  name : String
  params : List String
  body : List Stmt
deriving Inhabited

end ScriptKernel
