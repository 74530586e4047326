import ScriptKernel.Session.Load

/-!
The parts of a program. What is said of each expression and each statement on
its own is said of a whole program when it holds of every part, at whatever
depth; and loading a program, which gives its declarations labels, changes
nothing about its expressions.
-/

namespace ScriptKernel

def Expr.parts : Expr → List Expr
  | .literal _ | .var _ => []
  | .and left right | .or left right | .binary _ left right | .compare _ left right | .range left right
  | .index left right | .intBinary _ left right | .intCompare _ left right => [left, right]
  | .negate x | .not x | .intNegate x | .flagNot x => [x]
  | .hostCall _ _ args | .array args | .format _ args => args
  | .call f args => f :: args
  | .pipe x f args => x :: f :: args

def Stmt.exprs : Stmt → List Expr
  | .expr x | .define _ x | .assign _ x _ | .returnWith (some x) => [x]
  | .cond test _ _ | .whileLoop test _ _ => [test]
  | .forEach _ items _ => [items]
  | .setItem _ position x => [position, x]
  | .push array x => [array, x]
  | .block _ | .endless _ | .declare _ _ _ _ | .breakLoop | .continueLoop | .returnWith none | .memoize _ => []

def Stmt.parts : Stmt → List Stmt
  | .block body | .endless body | .whileLoop _ body _ | .forEach _ _ body | .declare _ _ _ body => body
  | .cond _ yes no => yes ++ no
  | _ => []

/-- The name that a statement itself may bind. -/
def Stmt.targets : Stmt → List String
  | .define name _ => [name]
  | .assign name _ _ => [name]
  | .declare _ name _ _ => [name]
  | _ => []

/-- The statements that run while the statement does. -/
def Stmt.inner : Stmt → List Stmt
  | .declare _ _ _ _ => []
  | s => s.parts

inductive Expr.Every (P : Expr → Prop) : Expr → Prop
  | intro {x : Expr} (here : P x) (parts : ∀ y ∈ x.parts, Expr.Every P y) : Expr.Every P x

inductive Stmt.Every (P : Expr → Prop) (Q : Stmt → Prop) : Stmt → Prop
  | intro {s : Stmt} (here : Q s) (exprs : ∀ x ∈ s.exprs, x.Every P)
      (parts : ∀ t ∈ s.parts, Stmt.Every P Q t) : Stmt.Every P Q s

namespace Expr.Every

variable {P P' : Expr → Prop} {x : Expr}

theorem here (every : x.Every P) : P x := by
  cases every with
  | intro here _ => exact here

theorem parts (every : x.Every P) : ∀ y ∈ x.parts, y.Every P := by
  cases every with
  | intro _ parts => exact parts

theorem mono (sub : ∀ y, P y → P' y) (every : x.Every P) : x.Every P' := by
  induction every with
  | intro here _ ih => exact .intro (sub _ here) ih

theorem pair {l r : Expr} (here : P x) (operands : x.parts = [l, r]) (left : l.Every P)
    (right : r.Every P) : x.Every P := by
  refine .intro here ?_
  rw [operands]
  simp [left, right]

end Expr.Every

namespace Stmt.Every

variable {P P' : Expr → Prop} {Q Q' : Stmt → Prop} {s : Stmt}

theorem exprs (every : s.Every P Q) : ∀ x ∈ s.exprs, x.Every P := by
  cases every with
  | intro _ exprs _ => exact exprs

theorem parts (every : s.Every P Q) : ∀ t ∈ s.parts, t.Every P Q := by
  cases every with
  | intro _ _ parts => exact parts

theorem inner (every : s.Every P Q) {t : Stmt} (member : t ∈ s.inner) : t.Every P Q := by
  cases s with
  | declare => cases member
  | _ => exact every.parts t member

theorem mono (expr : ∀ x, P x → P' x) (stmt : ∀ t, Q t → Q' t) (every : s.Every P Q) :
    s.Every P' Q' := by
  induction every with
  | intro here exprs _ ih => exact .intro (stmt _ here) (fun x member => (exprs x member).mono expr) ih

end Stmt.Every

/-- The expressions of a statement, at whatever depth, have the property. -/
abbrev Stmt.Uses (P : Expr → Prop) (s : Stmt) : Prop :=
  s.Every P fun _ => True

variable {P : Expr → Prop}

mutual

theorem Stmt.link_uses : ∀ (s : Stmt) (code : Array Function), s.Uses P →
    (∀ f ∈ code, ∀ t ∈ f.body, t.Uses P) →
    (s.link code).1.Uses P ∧ ∀ f ∈ (s.link code).2, ∀ t ∈ f.body, t.Uses P
  | .block body, code, uses, known => by
    have inside := linkAll_uses body code uses.parts known
    exact ⟨.intro trivial (List.forall_mem_nil _) inside.1, inside.2⟩
  | .cond test yes no, code, uses, known => by
    have both := List.forall_mem_append.1 uses.parts
    have first := linkAll_uses yes code both.1 known
    have second := linkAll_uses no (linkAll yes code).2 both.2 first.2
    exact ⟨.intro trivial uses.exprs (List.forall_mem_append.2 ⟨first.1, second.1⟩), second.2⟩
  | .whileLoop test body negated, code, uses, known => by
    have inside := linkAll_uses body code uses.parts known
    exact ⟨.intro trivial uses.exprs inside.1, inside.2⟩
  | .endless body, code, uses, known => by
    have inside := linkAll_uses body code uses.parts known
    exact ⟨.intro trivial (List.forall_mem_nil _) inside.1, inside.2⟩
  | .forEach name items body, code, uses, known => by
    have inside := linkAll_uses body code uses.parts known
    exact ⟨.intro trivial uses.exprs inside.1, inside.2⟩
  | .declare label name params body, code, uses, known => by
    have inside := linkAll_uses body code uses.parts known
    refine ⟨.intro trivial (List.forall_mem_nil _) inside.1, fun f member => ?_⟩
    rcases Array.mem_push.1 member with old | rfl
    · exact inside.2 f old
    · exact inside.1
  | .expr _, _, uses, known => ⟨uses, known⟩
  | .define _ _, _, uses, known => ⟨uses, known⟩
  | .assign _ _ _, _, uses, known => ⟨uses, known⟩
  | .breakLoop, _, uses, known => ⟨uses, known⟩
  | .continueLoop, _, uses, known => ⟨uses, known⟩
  | .returnWith _, _, uses, known => ⟨uses, known⟩
  | .setItem _ _ _, _, uses, known => ⟨uses, known⟩
  | .push _ _, _, uses, known => ⟨uses, known⟩
  | .memoize _, _, uses, known => ⟨uses, known⟩

theorem linkAll_uses : ∀ (body : List Stmt) (code : Array Function), (∀ s ∈ body, s.Uses P) →
    (∀ f ∈ code, ∀ t ∈ f.body, t.Uses P) →
    (∀ s ∈ (linkAll body code).1, s.Uses P) ∧ ∀ f ∈ (linkAll body code).2, ∀ t ∈ f.body, t.Uses P
  | [], _, uses, known => ⟨uses, known⟩
  | s :: rest, code, uses, known => by
    obtain ⟨here, later⟩ := List.forall_mem_cons.1 uses
    have first := Stmt.link_uses s code here known
    have second := linkAll_uses rest (s.link code).2 later first.2
    exact ⟨List.forall_mem_cons.2 ⟨first.1, second.1⟩, second.2⟩

end

end ScriptKernel
