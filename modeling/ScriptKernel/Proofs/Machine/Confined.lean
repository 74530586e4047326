import ScriptKernel.Proofs.Machine.CacheKeys
import ScriptKernel.Session.Load

/-!
MiniRust programs with pure functions. What a function's body may mention is
decided on the program's text: its parameters, the names it has defined before
in a block that is still open, and the declared functions, which are named
only to be called.
-/

namespace ScriptKernel

/-- What code sees from where it stands: at top level, or in a function's body,
where the names defined so far are known. -/
inductive Outlook where
  | top
  | body (known : List String)
deriving Repr, DecidableEq

namespace Outlook

def sees (functions : List String) : Outlook → String → Bool
  | top, name => !functions.contains name
  | body known, name => known.contains name

def isTop : Outlook → Bool
  | top => true
  | body _ => false

def behind : Outlook → Stmt → Outlook
  | body known, .define name _ => body (name :: known)
  | view, _ => view

end Outlook

def Expr.isNameOf (functions : List String) : Expr → Bool
  | .var name => functions.contains name
  | _ => false

mutual

def Expr.confined (functions : List String) (view : Outlook) : Expr → Bool
  | .literal v => decide v.Scalar
  | .var name => view.sees functions name
  | .and left right => left.confined functions view && right.confined functions view
  | .or left right => left.confined functions view && right.confined functions view
  | .call callee args =>
    (callee.isNameOf functions || callee.confined functions view) &&
      Expr.allConfined functions view args
  | .intBinary _ left right => left.confined functions view && right.confined functions view
  | .intCompare _ left right => left.confined functions view && right.confined functions view
  | .intNegate x => x.confined functions view
  | .flagNot x => x.confined functions view
  | .format _ args => Expr.allConfined functions view args
  | _ => false

def Expr.allConfined (functions : List String) (view : Outlook) : List Expr → Bool
  | [] => true
  | x :: xs => x.confined functions view && Expr.allConfined functions view xs

end

mutual

/-- A MiniRust statement that declares no function, gives no variable a
function's name and keeps to what is seen. Only top-level code calls the host. -/
def Stmt.confined (functions : List String) : Outlook → Stmt → Bool
  | view, .expr (.hostCall _ _ args) => view.isTop && Expr.allConfined functions view args
  | view, .expr x => x.confined functions view
  | view, .define name x => !functions.contains name && x.confined functions view
  | view, .assign name x orDefine =>
    !orDefine && view.sees functions name && x.confined functions view
  | view, .block body => Stmt.allConfined functions view body
  | view, .cond test yes no =>
    test.confined functions view && Stmt.allConfined functions view yes &&
      Stmt.allConfined functions view no
  | view, .whileLoop test body _ =>
    test.confined functions view && Stmt.allConfined functions view body
  | view, .endless body => Stmt.allConfined functions view body
  | _, .breakLoop => true
  | _, .continueLoop => true
  | _, .returnWith none => true
  | view, .returnWith (some x) => x.confined functions view
  | _, _ => false

def Stmt.allConfined (functions : List String) : Outlook → List Stmt → Bool
  | _, [] => true
  | view, s :: rest => s.confined functions view && Stmt.allConfined functions (view.behind s) rest

end

def declaredFunctions (program : List Stmt) : List Function :=
  program.filterMap fun
    | .declare _ name params body => some ⟨name, params, body⟩
    | _ => none

/-- A function whose parameters are not named like functions and whose body
keeps to what it sees. -/
def Function.confined (functions : List String) (f : Function) : Bool :=
  f.params.all (fun param => !functions.contains param) &&
    Stmt.allConfined functions (.body f.params) f.body

/-- A statement of the program itself: a declaration, or other code. -/
def Stmt.confinedTop (functions : List String) : Stmt → Bool
  | .declare _ name params body => Function.confined functions ⟨name, params, body⟩
  | s => s.confined functions .top

/-- A MiniRust program all of whose functions are declared at top level under
names of their own and are pure. -/
def purelyDeclared (program : List Stmt) : Bool :=
  let functions := (declaredFunctions program).map (·.name)
  decide functions.Nodup && program.all (Stmt.confinedTop functions)

end ScriptKernel
