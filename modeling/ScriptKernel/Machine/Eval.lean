import ScriptKernel.Lumen.Operations
import ScriptKernel.Machine.State
import ScriptKernel.MiniRust.Operations

/-!
Running programs. The parts of an expression or statement are evaluated
through the evaluators handed in, so every construct is defined on its own and
the recursion is in one place, bounded by fuel. Running out of fuel is an
outcome of its own.
-/

namespace ScriptKernel

structure Evaluators where
  expr : Expr → Run Value
  stmt : Stmt → Run Control

namespace Evaluators

variable (ev : Evaluators)

def all : List Expr → Run (List Value)
  | [] => pure []
  | x :: xs => do
    let v ← ev.expr x
    let vs ← all xs
    pure (v :: vs)

def sequence : List Stmt → Run Control
  | [] => pure .normal
  | s :: rest => do
    match ← ev.stmt s with
    | .normal => sequence rest
    | c => pure c

def block (body : List Stmt) : Run Control :=
  Run.inScope id (ev.sequence body)

/-- The body of a function: a return gives its value, an expression at the end
gives its value, and otherwise the result is empty. -/
def body (name : String) : List Stmt → Run Value
  | [] => do return (← read).empty
  | [.expr x] => ev.expr x
  | s :: rest => do
    match ← ev.stmt s with
    | .normal => body name rest
    | .returning v => pure v
    | c => Run.fault (.strayIn c.flow name)

def activate (f : Function) (args : List Value) : Run Value := fun setting st =>
  let bind := fun scopes => (f.params.zip args).foldl (fun s (param, v) => s.set param v) scopes
  match Run.inScope bind (ev.body f.name f.body) setting { st with calls := st.calls + 1 } with
  | .ok v st => .ok v { st with calls := st.calls - 1 }
  | .error h st => .error h { st with calls := st.calls - 1 }

/-- Calls a declared function. While the cache is on, a call with arguments
seen before gives the result of that time, and a new result is kept, even if
the cache has been switched off meanwhile. -/
def callFunction (label : Nat) (f : Function) (args : List Value) : Run Value :=
  fun setting st =>
    if args.length ≠ f.params.length then
      Run.fault (.arity ("Function '" ++ f.name ++ "'") f.params.length args.length) setting st
    else if 0 < setting.maxCalls ∧ setting.maxCalls ≤ st.calls then
      Run.fault (.callDepth setting.maxCalls f.name) setting st
    else match st.memo with
      | none => ev.activate f args setting st
      | some memo =>
        if !memo.enabled then ev.activate f args setting st
        else
          let key := Memo.key st.heap args
          match memo.find? label key with
          | some v => .ok v { st with memo := some memo.hit }
          | none =>
            (do
              let v ← ev.activate f args
              Run.memo (·.store label key v)
              pure v : Run Value) setting st

def callNative (action : NativeAction) (args : List Value) : Run Value :=
  match action with
  | .collect => Run.alloc args.toArray
  | .length => Run.read fun heap => Lumen.length heap (args.headD .absent)

def invoke (callee : Value) (args : List Value) : Run Value := fun setting st =>
  match callee with
  | .function label _ _ =>
    match setting.code[label]? with
    | some f => ev.callFunction label f args setting st
    | none => Run.fault (.cannotCall callee.kind) setting st
  | .native _ name arity action =>
    if 0 ≤ arity ∧ (args.length : Int) ≠ arity then
      Run.fault (.arity name arity args.length) setting st
    else callNative action args setting st
  | _ => Run.fault (.cannotCall callee.kind) setting st

/-- Calls the host. The arguments are evaluated only once a key is found. -/
def host (selector : String) (keys : List Key) (args : List Expr) : Run Value :=
  fun setting st =>
    match setting.capabilities.bind (·.first? keys) with
    | none => Run.fault (.unknownCapability selector) setting st
    | some (_, capability) =>
      (do
        let vs ← ev.all args
        Run.perform capability vs : Run Value) setting st

def whileLoop (test : Expr) (wanted : Bool) (body : List Stmt) : Nat → Run Control
  | 0 => Run.halt .outOfFuel
  | fuel + 1 => do
    let holds ← Run.truth (← ev.expr test)
    if holds != wanted then return .normal
    match ← ev.block body with
    | .breaking => return .normal
    | .returning v => return .returning v
    | _ => whileLoop test wanted body fuel

def endless (body : List Stmt) : Nat → Run Control
  | 0 => Run.halt .outOfFuel
  | fuel + 1 => do
    match ← ev.block body with
    | .breaking => return .normal
    | .returning v => return .returning v
    | _ => endless body fuel

def round (name : String) (v : Value) (body : List Stmt) : Run Control :=
  Run.inScope (Scopes.set name v) (ev.sequence body)

def forItems (name : String) (body : List Stmt) : List Value → Run Control
  | [] => pure .normal
  | v :: vs => do
    match ← ev.round name v body with
    | .breaking => return .normal
    | .returning v => return .returning v
    | _ => forItems name body vs

def forSteps (name : String) (body : List Stmt) (stop : Float) : Nat → Float → Run Control
  | 0, _ => Run.halt .outOfFuel
  | fuel + 1, x => do
    if stop ≤ x then return .normal
    match ← ev.round name (.number x) body with
    | .breaking => return .normal
    | .returning v => return .returning v
    | _ => forSteps name body stop fuel (x + 1)

def forEach (name : String) (items : Expr) (body : List Stmt) (fuel : Nat) : Run Control := do
  let v ← ev.expr items
  match ← Run.read fun heap => Lumen.course heap v with
  | .steps start stop => ev.forSteps name body stop fuel start
  | .items vs => ev.forItems name body vs

def two (left right : Expr) (f : Heap → Value → Value → Except RuntimeFault Value) :
    Run Value := do
  let x ← ev.expr left
  let y ← ev.expr right
  Run.read fun heap => f heap x y

def one (x : Expr) (f : Value → Except RuntimeFault Value) : Run Value := do
  let v ← ev.expr x
  Run.lift (f v)

def evalExpr : Expr → Run Value
  | .literal v => pure v
  | .var name => Run.lookup name
  | .and left right => do
    let v ← ev.expr left
    if ← Run.truth v then ev.expr right else pure v
  | .or left right => do
    let v ← ev.expr left
    if ← Run.truth v then pure v else ev.expr right
  | .call callee args => do
    let f ← ev.expr callee
    let vs ← ev.all args
    ev.invoke f vs
  | .hostCall selector keys args => ev.host selector keys args
  | .binary op left right => ev.two left right fun _ => Lumen.arith op
  | .compare op left right => ev.two left right fun heap => Lumen.compare heap op
  | .negate x => ev.one x Lumen.negate
  | .not x => ev.one x Lumen.not
  | .range start stop => ev.two start stop fun _ => Lumen.range
  | .array items => do
    let vs ← ev.all items
    Run.allocCopies vs
  | .index x position => ev.two x position Lumen.index
  | .pipe x function args => do
    let v ← ev.expr x
    let f ← ev.expr function
    let vs ← ev.all args
    ev.invoke f (v :: vs)
  | .intBinary op left right => ev.two left right fun _ => MiniRust.arith op
  | .intCompare op left right => ev.two left right fun heap => MiniRust.compare heap op
  | .intNegate x => ev.one x MiniRust.negate
  | .flagNot x => ev.one x MiniRust.not
  | .format template args => do
    let vs ← ev.all args
    Run.read fun heap => MiniRust.format template (vs.map heap.display)

/-- Replaces an element. The array and the position are settled before the new
value is evaluated. -/
def setItem (name : String) (position x : Expr) : Run Control := do
  let cell ← Run.lift (← Run.lookup name).asArray
  let p ← ev.expr position
  let i ← Run.read fun heap => Lumen.position p (heap.items cell).size
  let v ← ev.expr x
  Run.storeCopy (fun heap v => heap.replace cell i v) v
  return .normal

def push (array x : Expr) : Run Control := do
  let cell ← Run.lift (← ev.expr array).asArray
  let v ← ev.expr x
  Run.storeCopy (fun heap v => heap.append cell v) v
  return .normal

def evalStmt (fuel : Nat) : Stmt → Run Control
  | .expr x => do
    let _ ← ev.expr x
    return .normal
  | .define name x => do
    let v ← ev.expr x
    Run.scopes (Scopes.set name v)
    return .normal
  | .assign name x orDefine => do
    let v ← ev.expr x
    if orDefine then Run.scopes (Scopes.assignOrSet name v) else Run.assign name v
    return .normal
  | .block body => ev.block body
  | .cond test yes no => do
    if ← Run.truth (← ev.expr test) then ev.block yes
    else if no.isEmpty then return .normal
    else ev.block no
  | .whileLoop test body negated => ev.whileLoop test (!negated) body fuel
  | .endless body => ev.endless body fuel
  | .forEach name items body => ev.forEach name items body fuel
  | .breakLoop => return .breaking
  | .continueLoop => return .continuing
  | .returnWith none => do return .returning (← read).empty
  | .returnWith (some x) => do return .returning (← ev.expr x)
  | .declare label name params _ => do
    Run.scopes (Scopes.set name (.function label name params.length))
    return .normal
  | .setItem name position x => ev.setItem name position x
  | .push array x => ev.push array x
  | .memoize on => do
    Run.memoize on
    return .normal

end Evaluators

/-- The evaluators with so much fuel: parts may be nested so deep, and loops
may go round so often. -/
def evaluators : Nat → Evaluators
  | 0 => { expr := fun _ => Run.halt .outOfFuel, stmt := fun _ => Run.halt .outOfFuel }
  | fuel + 1 =>
    { expr := fun x setting st => (evaluators fuel).evalExpr x setting st
      stmt := fun s setting st => (evaluators fuel).evalStmt fuel s setting st }

/-- What a signal for a loop does at top level. -/
inductive StrayPolicy where
  | reject
  | ignore
deriving Repr, DecidableEq

/-- The statements of a program one after the other. A return ends it with its
value; otherwise the result is empty. -/
def runTop (ev : Evaluators) (policy : StrayPolicy) : List Stmt → Run Value
  | [] => do return (← read).empty
  | s :: rest => do
    match ← ev.stmt s with
    | .normal => runTop ev policy rest
    | .returning v => pure v
    | c =>
      match policy with
      | .reject => Run.fault (.stray c.flow)
      | .ignore => runTop ev policy rest

def runProgram (fuel : Nat) (policy : StrayPolicy) (program : List Stmt) : Run Value :=
  fun setting st =>
    match runTop (evaluators fuel) policy program setting st with
    | .ok v st => .ok v { st with scopes := st.scopes.unwind 1 }
    | .error h st => .error h { st with scopes := st.scopes.unwind 1 }

end ScriptKernel
