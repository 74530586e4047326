import ScriptKernel.Program.Basic
import ScriptKernel.Text.Pieces
import ScriptKernel.Value.Heap

/-!
Programs drawn as outlines: one record for a node, one line for a field, two
more spaces for each level. Fields that are empty are left out.
-/

namespace ScriptKernel

inductive Outline where
  /-- A text as it stands. -/
  | text (content : String)
  | record (head : String) (fields : List (String × Outline))
  /-- A record of a kind that has no fields. -/
  | bare (head : String)
  | items (head : String) (elements : List Outline)

namespace Outline

mutual

def render (margin : String) : Outline → String
  | text content => content
  | record head fields => head ++ "\x7b\n" ++ renderFields (margin ++ "  ") fields ++ margin ++ "\x7d"
  | bare head => head ++ "\x7b" ++ margin ++ "\x7d"
  | items head elements =>
    head ++ "\x7b\n" ++ renderItems (margin ++ "  ") elements ++ margin ++ "\x7d"

def renderFields (margin : String) : List (String × Outline) → String
  | [] => ""
  | (name, content) :: rest =>
    margin ++ name ++ ": " ++ content.render margin ++ ",\n" ++ renderFields margin rest

def renderItems (margin : String) : List Outline → String
  | [] => ""
  | content :: rest => margin ++ content.render margin ++ ",\n" ++ renderItems margin rest

end

def quoted (name text : String) : List (String × Outline) :=
  if text = "" then [] else [(name, .text (Text.quote text))]

def list (name kind : String) (elements : List Outline) : List (String × Outline) :=
  if elements.isEmpty then [] else [(name, .items ("[]" ++ kind) elements)]

def switch (name : String) (on : Bool) : List (String × Outline) :=
  if on then [(name, .text "true")] else []

def truth : String × Outline := ("Truth", .text "runtime.Truth(PTR)")

def operation (head symbol : String) (left right : Outline) : Outline :=
  .record head (quoted "Op" symbol ++ [("Left", left), ("Right", right)])

def ofKey (key : Key) : Outline :=
  .record "" (quoted "Backend" key.backend ++ quoted "Name" key.name)

mutual

def ofExpr : Expr → Outline
  | .literal v => .record "&runtime.Literal" [("V", .text (Heap.empty.debug v))]
  | .var name => .record "&runtime.Var" (quoted "Name" name)
  | .and left right =>
    .record "&runtime.And" [("Left", ofExpr left), ("Right", ofExpr right), truth]
  | .or left right =>
    .record "&runtime.Or" [("Left", ofExpr left), ("Right", ofExpr right), truth]
  | .call callee args =>
    .record "&runtime.Call" (("Callee", ofExpr callee) :: arguments args)
  | .hostCall selector keys args =>
    .record "&runtime.CapabilityCall"
      (quoted "Selector" selector ++ list "Clauses" "capability.Key" (keys.map ofKey) ++
        arguments args)
  | .binary op left right => operation "&lumen.Binary" op.symbol (ofExpr left) (ofExpr right)
  | .compare op left right => operation "&lumen.Compare" op.symbol (ofExpr left) (ofExpr right)
  | .negate x => .record "&lumen.Negate" [("X", ofExpr x)]
  | .not x => .record "&lumen.Not" [("X", ofExpr x)]
  | .range start stop =>
    .record "&lumen.RangeExpr" [("Start", ofExpr start), ("End", ofExpr stop)]
  | .array elements => .record "&lumen.ArrayLit" (list "Elems" "runtime.Expr" (ofExprs elements))
  | .index x position => .record "&lumen.Index" [("X", ofExpr x), ("At", ofExpr position)]
  | .pipe x function args =>
    .record "&lumen.Pipe" (("X", ofExpr x) :: ("Fn", ofExpr function) :: arguments args)
  | .intBinary op left right => operation "&minirust.Arith" op.symbol (ofExpr left) (ofExpr right)
  | .intCompare op left right =>
    operation "&minirust.Compare" op.symbol (ofExpr left) (ofExpr right)
  | .intNegate x => .record "&minirust.Neg" [("X", ofExpr x)]
  | .flagNot x => .record "&minirust.Not" [("X", ofExpr x)]
  | .format template args =>
    .record "&minirust.Format" (quoted "Template" template ++ arguments args)

def arguments (args : List Expr) : List (String × Outline) :=
  list "Args" "runtime.Expr" (ofExprs args)

def ofExprs : List Expr → List Outline
  | [] => []
  | x :: rest => ofExpr x :: ofExprs rest

end

mutual

def ofStmt : Stmt → Outline
  | .expr x => .record "&runtime.ExprStmt" [("X", ofExpr x)]
  | .define name x => .record "&runtime.Define" (quoted "Name" name ++ [("X", ofExpr x)])
  | .assign name x orDefine =>
    .record "&runtime.Assign"
      (quoted "Name" name ++ [("X", ofExpr x)] ++ switch "OrDefine" orDefine)
  | .block body => .record "&runtime.Block" (statements "Stmts" body)
  | .cond test yes no =>
    .record "&runtime.If"
      ([("Cond", ofExpr test)] ++ statements "Then" yes ++ statements "Else" no ++ [truth])
  | .whileLoop test body negated =>
    .record "&runtime.While"
      ([("Cond", ofExpr test)] ++ statements "Body" body ++ [truth] ++ switch "Until" negated)
  | .endless body =>
    .record "&runtime.While" (statements "Body" body ++ [("Truth", .text "nil")])
  | .forEach name source body =>
    .record "&runtime.ForEach"
      (quoted "Var" name ++ [("Iter", ofExpr source)] ++ statements "Body" body ++
        [("Iterate", .text "runtime.Iterate(PTR)")])
  | .breakLoop => .bare "runtime.BreakStmt"
  | .continueLoop => .bare "runtime.ContinueStmt"
  | .returnWith none => .record "&runtime.ReturnStmt" []
  | .returnWith (some x) => .record "&runtime.ReturnStmt" [("X", ofExpr x)]
  | .declare label name params _ =>
    .record "&runtime.FuncDecl"
      [("Fn", .text (Heap.empty.debug (.function label name params.length)))]
  | .setItem name position x =>
    .record "&lumen.SetIndex" (quoted "Name" name ++ [("At", ofExpr position), ("X", ofExpr x)])
  | .push array x => .record "&lumen.Push" [("Array", ofExpr array), ("X", ofExpr x)]
  | .memoize on => .record "&lumen.SetMemoization" (switch "On" on)

def statements (name : String) (body : List Stmt) : List (String × Outline) :=
  list name "runtime.Stmt" (ofStmts body)

def ofStmts : List Stmt → List Outline
  | [] => []
  | s :: rest => ofStmt s :: ofStmts rest

end

def ofProgram (program : List Stmt) : Outline :=
  .record "&runtime.Program" (statements "Stmts" program)

end Outline

end ScriptKernel
