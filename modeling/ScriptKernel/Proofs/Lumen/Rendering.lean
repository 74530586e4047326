import ScriptKernel.Lumen.Grammar

/-!
Writing Lumen programs as source text. A statement stands on a line of its own
with four spaces for every block around it, and an expression is put in
parentheses exactly where it binds looser than its place requires.
-/

namespace ScriptKernel.Lumen

inductive Infix where
  | pipe
  | range
  | or
  | and
  | compare (op : CompareOp)
  | arith (op : ArithOp)
deriving Repr, DecidableEq

namespace Infix

def tree : Infix → Expr → Expr → Expr
  | pipe => piped
  | range => .range
  | or => .or
  | and => .and
  | compare op => .compare op
  | arith op => .binary op

def symbol : Infix → String
  | pipe => "|>"
  | range => ".."
  | or => "or"
  | and => "and"
  | compare op => op.symbol
  | arith op => op.symbol

def level : Infix → Precedence
  | pipe => pipeLevel
  | range => rangeLevel
  | or => orLevel
  | and => andLevel
  | compare _ => comparisonLevel
  | arith .add | arith .sub => termLevel
  | arith .pow => powerLevel
  | arith _ => factorLevel

/-- What the left operand must bind like. Comparisons do not associate, and
powers associate to the right. -/
def left : Infix → Precedence
  | compare op => (compare op).level + 1
  | arith .pow => powerLevel + 1
  | op => op.level

def right : Infix → Precedence
  | arith .pow => powerLevel
  | op => op.level + 1

end Infix

def level : Expr → Precedence
  | .pipe _ _ _ => Infix.pipe.level
  | .range _ _ => Infix.range.level
  | .or _ _ => Infix.or.level
  | .and _ _ => Infix.and.level
  | .compare op _ _ => (Infix.compare op).level
  | .binary op _ _ => (Infix.arith op).level
  | .not _ => comparisonLevel
  | .negate _ => unaryLevel
  | _ => callLevel

def parenthesized (text : List Char) : List Char :=
  '(' :: text ++ [')']

def grouped (required : Precedence) (x : Expr) (text : List Char) : List Char :=
  if level x < required then parenthesized text else text

def outputWords : List String := ["print", "write", "push"]

def called (x : Expr) (text : List Char) : List Char :=
  match x with
  | .var name => if name ∈ outputWords then parenthesized text else text
  | _ => grouped callLevel x text

def escaped : List Char → List Char
  | [] => []
  | c :: cs => if c = '"' ∨ c = '\\' then '\\' :: c :: escaped cs else c :: escaped cs

def quoted (text : String) : List Char :=
  '"' :: escaped text.toList ++ ['"']

def constant : Value → List Char
  | .number x => (Decimal.render x).toList
  | .bool b => (Value.boolText b).toList
  | .string text => quoted text
  | .none => "none".toList
  | _ => []

def commas : List (List Char) → List Char
  | [] => []
  | [text] => text
  | text :: next :: more => text ++ ", ".toList ++ commas (next :: more)

def Infix.spell (op : Infix) (l r : Expr) (left right : List Char) : List Char :=
  grouped op.left l left ++ ' ' :: op.symbol.toList ++ ' ' :: grouped op.right r right

mutual

/-- The text of an expression. Only Lumen's forms have one. -/
def spell : Expr → List Char
  | .literal v => constant v
  | .var name => name.toList
  | .and l r => Infix.and.spell l r (spell l) (spell r)
  | .or l r => Infix.or.spell l r (spell l) (spell r)
  | .range l r => Infix.range.spell l r (spell l) (spell r)
  | .compare op l r => (Infix.compare op).spell l r (spell l) (spell r)
  | .binary op l r => (Infix.arith op).spell l r (spell l) (spell r)
  | .not x => "not ".toList ++ grouped comparisonLevel x (spell x)
  | .negate x => '-' :: grouped unaryLevel x (spell x)
  | .call f args => called f (spell f) ++ parenthesized (commas (spells args))
  | .hostCall selector _ args =>
    "extern".toList ++ parenthesized (commas (quoted selector :: spells args))
  | .array items => '[' :: commas (spells items) ++ [']']
  | .index x position => grouped callLevel x (spell x) ++ '[' :: spell position ++ [']']
  | .pipe x f args =>
    Infix.pipe.spell x (.call f args) (spell x)
      (called f (spell f) ++ parenthesized (commas (spells args)))
  | _ => []

def spells : List Expr → List (List Char)
  | [] => []
  | x :: xs => spell x :: spells xs

end

theorem spells_eq_map (xs : List Expr) : spells xs = xs.map spell := by
  induction xs with
  | nil => rfl
  | cons x xs ih => rw [spells, ih, List.map_cons]

theorem spell_tree {op : Infix} {l r : Expr} (called : op = .pipe → ∃ f args, r = .call f args) :
    spell (op.tree l r) = op.spell l r (spell l) (spell r) := by
  cases op with
  | pipe =>
    obtain ⟨f, args, rfl⟩ := called rfl
    rfl
  | _ => rfl

theorem level_tree (op : Infix) (l r : Expr) : level (op.tree l r) = op.level := by
  cases op with
  | pipe => cases r <;> rfl
  | _ => rfl

structure Line where
  level : Nat
  text : List Char
deriving Repr, DecidableEq

def target (name : String) : List Char :=
  if name = "MEMOIZATION" then parenthesized name.toList else name.toList

mutual

/-- The lines of a statement; `keyword` starts a condition. -/
def linesOf (keyword : String) (level : Nat) : Stmt → List Line
  | .expr x => [⟨level, spell x⟩]
  | .define name x => [⟨level, "let ".toList ++ name.toList ++ " = ".toList ++ spell x⟩]
  | .assign name x _ => [⟨level, target name ++ " = ".toList ++ spell x⟩]
  | .cond test yes no =>
    ⟨level, keyword.toList ++ ' ' :: spell test⟩ ::
      (body (level + 1) yes ++ otherwise level no)
  | .whileLoop test block negated =>
    ⟨level, (if negated then "until ".toList else "while ".toList) ++ spell test⟩ ::
      body (level + 1) block
  | .forEach name items block =>
    ⟨level, "for ".toList ++ name.toList ++ " in ".toList ++ spell items⟩ :: body (level + 1) block
  | .breakLoop => [⟨level, "break".toList⟩]
  | .continueLoop => [⟨level, "continue".toList⟩]
  | .returnWith none => [⟨level, "return".toList⟩]
  | .returnWith (some x) => [⟨level, "return ".toList ++ spell x⟩]
  | .declare _ name params block =>
    ⟨level, "fn ".toList ++ name.toList ++ parenthesized (commas (params.map String.toList))⟩ ::
      body (level + 1) block
  | .setItem name position x =>
    [⟨level, name.toList ++ '[' :: spell position ++ ']' :: " = ".toList ++ spell x⟩]
  | .push array x => [⟨level, "push".toList ++ parenthesized (commas [spell array, spell x])⟩]
  | .memoize on => [⟨level, "MEMOIZATION = ".toList ++ (Value.boolText on).toList⟩]
  | _ => []

def linesOfAll (level : Nat) : List Stmt → List Line
  | [] => []
  | s :: rest => linesOf "if" level s ++ linesOfAll level rest

/-- The lines of a block. A semicolon stands for no statement. -/
def body (level : Nat) : List Stmt → List Line
  | [] => [⟨level, [';']⟩]
  | s :: rest => linesOf "if" level s ++ linesOfAll level rest

/-- The lines of an alternative. A condition alone is a further branch. -/
def otherwise (level : Nat) : List Stmt → List Line
  | [] => []
  | [.cond test yes no] => linesOf "elif" level (.cond test yes no)
  | s :: rest => ⟨level, "else".toList⟩ :: (linesOf "if" (level + 1) s ++ linesOfAll (level + 1) rest)

end

def Line.render (line : Line) : List Char :=
  List.replicate (4 * line.level) ' ' ++ line.text ++ ['\n']

def render (program : List Stmt) : String :=
  String.ofList ((linesOfAll 0 program).flatMap Line.render)

end ScriptKernel.Lumen
