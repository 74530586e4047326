import ScriptKernel.Proofs.Session.Loading

/-!
Lumen programs with pure functions. What a function's body may mention is
decided on the program's text: its parameters, the names it has defined before
in a block that is still open, and the declared functions. It calls no host and
leaves the cache alone. Code outside functions may do what it likes, but for
giving a function's name to something else.
-/

namespace ScriptKernel

def Outlook.knowing (name : String) : Outlook → Outlook
  | .body known => .body (name :: known)
  | view => view

mutual

def Expr.contained (functions : List String) (view : Outlook) : Expr → Bool
  | .literal (.array _) => false
  | .literal _ => true
  | .var name => functions.contains name || view.sees functions name
  | .and left right => left.contained functions view && right.contained functions view
  | .or left right => left.contained functions view && right.contained functions view
  | .call callee args => callee.contained functions view && Expr.allContained functions view args
  | .hostCall _ _ args => view.isTop && Expr.allContained functions view args
  | .binary _ left right => left.contained functions view && right.contained functions view
  | .compare _ left right => left.contained functions view && right.contained functions view
  | .negate x => x.contained functions view
  | .not x => x.contained functions view
  | .range start stop => start.contained functions view && stop.contained functions view
  | .array items => Expr.allContained functions view items
  | .index x position => x.contained functions view && position.contained functions view
  | .pipe x function args =>
    x.contained functions view && function.contained functions view && Expr.allContained functions view args
  | _ => false

def Expr.allContained (functions : List String) (view : Outlook) : List Expr → Bool
  | [] => true
  | x :: xs => x.contained functions view && Expr.allContained functions view xs

end

mutual

/-- A Lumen statement that declares no function, gives no variable a function's
name and keeps to what is seen. -/
def Stmt.contained (functions : List String) : Outlook → Stmt → Bool
  | view, .expr x => x.contained functions view
  | view, .define name x => !functions.contains name && x.contained functions view
  | view, .assign name x _ =>
    !functions.contains name && view.sees functions name && x.contained functions view
  | view, .block body => Stmt.allContained functions view body
  | view, .cond test yes no =>
    test.contained functions view && Stmt.allContained functions view yes &&
      Stmt.allContained functions view no
  | view, .whileLoop test body _ =>
    test.contained functions view && Stmt.allContained functions view body
  | view, .endless body => Stmt.allContained functions view body
  | view, .forEach name items body =>
    !functions.contains name && items.contained functions view &&
      Stmt.allContained functions (view.knowing name) body
  | _, .breakLoop => true
  | _, .continueLoop => true
  | _, .returnWith none => true
  | view, .returnWith (some x) => x.contained functions view
  | view, .setItem name position x =>
    (functions.contains name || view.sees functions name) && position.contained functions view &&
      x.contained functions view
  | view, .push array x => array.contained functions view && x.contained functions view
  | view, .memoize _ => view.isTop
  | _, .declare _ _ _ _ => false

def Stmt.allContained (functions : List String) : Outlook → List Stmt → Bool
  | _, [] => true
  | view, s :: rest => s.contained functions view && Stmt.allContained functions (view.behind s) rest

end

def Function.contained (functions : List String) (f : Function) : Bool :=
  f.params.all (fun param => !functions.contains param) &&
    Stmt.allContained functions (.body f.params) f.body

def Stmt.containedTop (functions : List String) : Stmt → Bool
  | .declare _ name params body => Function.contained functions ⟨name, params, body⟩
  | s => s.contained functions .top

/-- A name as the lexer reads it, without a slash at least, that is not bound
from the start. -/
def isFreeName (name : String) : Bool :=
  name.toList.all (· ≠ '/') && !Scope.binds name Language.lumen.globals

/-- A Lumen program all of whose functions are declared at top level under
names of their own and are pure, as far as the text shows. -/
def openlyDeclared (program : List Stmt) : Bool :=
  let functions := (declaredFunctions program).map (·.name)
  decide functions.Nodup && functions.all isFreeName && program.all (Stmt.containedTop functions)

variable {functions : List String}

theorem Stmt.contained_of_all {view : Outlook} {body : List Stmt} (contained : Stmt.allContained functions view body) :
    ∀ s ∈ body, ∃ view, s.contained functions view := by
  induction body generalizing view with
  | nil => nofun
  | cons s rest ih =>
    simp only [Stmt.allContained, Bool.and_eq_true] at contained
    exact List.forall_mem_cons.2 ⟨⟨view, contained.1⟩, ih contained.2⟩

theorem Expr.allContained_iff {view : Outlook} {xs : List Expr} :
    Expr.allContained functions view xs ↔ ∀ x ∈ xs, x.contained functions view := by
  induction xs with
  | nil => exact ⟨fun _ => List.forall_mem_nil _, fun _ => rfl⟩
  | cons x xs ih => rw [Expr.allContained, Bool.and_eq_true, ih, List.forall_mem_cons]

theorem Expr.contained_parts {view : Outlook} {x : Expr} (contained : x.contained functions view) :
    ∀ y ∈ x.parts, y.contained functions view := by
  cases x with
  | literal | var => exact List.forall_mem_nil _
  | and left right | or left right | binary _ left right | compare _ left right | range left right
  | index left right =>
    rw [Expr.contained, Bool.and_eq_true] at contained
    exact List.forall_mem_cons.2 ⟨contained.1, List.forall_mem_singleton.2 contained.2⟩
  | negate y | not y => exact List.forall_mem_singleton.2 contained
  | array items => exact allContained_iff.1 contained
  | hostCall selector keys args =>
    rw [Expr.contained, Bool.and_eq_true] at contained
    exact allContained_iff.1 contained.2
  | call callee args =>
    rw [Expr.contained, Bool.and_eq_true] at contained
    exact List.forall_mem_cons.2 ⟨contained.1, allContained_iff.1 contained.2⟩
  | pipe y function args =>
    rw [Expr.contained, Bool.and_eq_true, Bool.and_eq_true] at contained
    obtain ⟨⟨first, called⟩, given⟩ := contained
    exact List.forall_mem_cons.2 ⟨first, List.forall_mem_cons.2 ⟨called, allContained_iff.1 given⟩⟩
  | intBinary | intCompare | intNegate | flagNot | format => cases contained

theorem Stmt.contained_exprs {view : Outlook} {s : Stmt} (contained : s.contained functions view) :
    ∀ x ∈ s.exprs, x.contained functions view := by
  cases s with
  | expr x => exact List.forall_mem_singleton.2 contained
  | returnWith x =>
    cases x with
    | none => exact List.forall_mem_nil _
    | some x => exact List.forall_mem_singleton.2 contained
  | define name x | assign name x orDefine =>
    rw [Stmt.contained, Bool.and_eq_true] at contained
    exact List.forall_mem_singleton.2 contained.2
  | cond test yes no =>
    rw [Stmt.contained, Bool.and_eq_true, Bool.and_eq_true] at contained
    exact List.forall_mem_singleton.2 contained.1.1
  | whileLoop test body negated =>
    rw [Stmt.contained, Bool.and_eq_true] at contained
    exact List.forall_mem_singleton.2 contained.1
  | forEach name items body =>
    rw [Stmt.contained, Bool.and_eq_true, Bool.and_eq_true] at contained
    exact List.forall_mem_singleton.2 contained.1.2
  | setItem name position x =>
    rw [Stmt.contained, Bool.and_eq_true, Bool.and_eq_true] at contained
    exact List.forall_mem_cons.2 ⟨contained.1.2, List.forall_mem_singleton.2 contained.2⟩
  | push array x =>
    rw [Stmt.contained, Bool.and_eq_true] at contained
    exact List.forall_mem_cons.2 ⟨contained.1, List.forall_mem_singleton.2 contained.2⟩
  | declare => cases contained
  | block | endless | breakLoop | continueLoop | memoize => exact List.forall_mem_nil _

theorem Stmt.contained_parts (s : Stmt) : (∃ view, s.contained functions view) →
    ∀ part ∈ s.parts, ∃ view, part.contained functions view := by
  rintro ⟨view, contained⟩
  cases s with
  | block body => exact contained_of_all contained
  | endless body => exact contained_of_all contained
  | whileLoop test body negated =>
    simp only [Stmt.contained, Bool.and_eq_true] at contained
    exact contained_of_all contained.2
  | forEach name items body =>
    simp only [Stmt.contained, Bool.and_eq_true] at contained
    exact contained_of_all contained.2
  | cond test yes no =>
    simp only [Stmt.contained, Bool.and_eq_true] at contained
    exact List.forall_mem_append.2 ⟨contained_of_all contained.1.2, contained_of_all contained.2⟩
  | declare => cases contained
  | _ => exact List.forall_mem_nil _

theorem Stmt.linksAlone_contained {s : Stmt} (contained : s.containedTop functions) : s.LinksAlone := by
  have declares (label : Nat) (name : String) (params : List String) (body : List Stmt) :
      ¬∃ view, (Stmt.declare label name params body).contained functions view := fun ⟨_, contained⟩ => nomatch contained
  cases s with
  | declare label name params body =>
    simp only [Stmt.containedTop, Function.contained, Bool.and_eq_true] at contained
    exact fun code => linkAll_of_closed declares contained_parts body code (contained_of_all contained.2)
  | _ => exact fun code => link_of_closed declares contained_parts _ code ⟨.top, contained⟩

end ScriptKernel
