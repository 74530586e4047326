import ScriptKernel.Proofs.Machine.OperationFaults
import ScriptKernel.Proofs.Machine.ProgramParts

/-!
Relations between runs. What is to be shown of all that an evaluator does, alone
or beside another one, is put as a relation between two runs. Where the steps of
the machine keep to the relation, every construct hands it on from its parts to
the whole. The constructs are gone through here, once for every such relation.
-/

namespace ScriptKernel

namespace Run

variable {α β : Type} {setting : Setting} {st mid : State}

def after (run : Run α) (setting : Setting) (st : State) : State :=
  match run setting st with
  | .ok _ last => last
  | .error _ last => last

theorem bind_ok {run : Run α} {a : α} (next : α → Run β) (ran : run setting st = .ok a mid) :
    (run >>= next) setting st = next a setting mid := by
  change EStateM.bind (run setting) (fun a => next a setting) st = _
  simp only [EStateM.bind, ran]

theorem bind_error {run : Run α} {h : Halt} (next : α → Run β) (ran : run setting st = .error h mid) :
    (run >>= next) setting st = .error h mid := by
  change EStateM.bind (run setting) (fun a => next a setting) st = _
  simp only [EStateM.bind, ran]

end Run

def Stmt.isLoop : Stmt → Bool
  | .whileLoop _ _ _ => true
  | .endless _ => true
  | .forEach _ _ _ => true
  | _ => false

namespace Evaluators

def exprVia (ev : Evaluators) (invoke : Value → List Value → Run Value)
    (host : String → List Key → List Expr → Run Value) : Expr → Run Value
  | .call callee args => do
    let f ← ev.expr callee
    let vs ← ev.all args
    invoke f vs
  | .pipe x function args => do
    let v ← ev.expr x
    let f ← ev.expr function
    let vs ← ev.all args
    invoke f (v :: vs)
  | .hostCall selector keys args => host selector keys args
  | x => ev.evalExpr x

def hostVia (ev : Evaluators) (perform : Key → Capability → List Value → Run Value) (selector : String)
    (keys : List Key) (args : List Expr) : Run Value := fun setting st =>
  match setting.capabilities.bind (·.first? keys) with
  | none => Run.fault (.unknownCapability selector) setting st
  | some (key, capability) =>
    (do
      let vs ← ev.all args
      perform key capability vs : Run Value) setting st

/-- Runs a statement where changes of arrays and of the cache are made as given. -/
def stmtVia (ev : Evaluators) (store : Nat → Run Unit → Run Unit) (memoize : Bool → Run Unit) (fuel : Nat) :
    Stmt → Run Control
  | .setItem name position x => do
    let cell ← Run.lift (← Run.lookup name).asArray
    let p ← ev.expr position
    let i ← Run.read fun heap => Lumen.position p (heap.items cell).size
    let v ← ev.expr x
    store cell (Run.storeCopy (fun heap v => heap.replace cell i v) v)
    return .normal
  | .push array x => do
    let cell ← Run.lift (← ev.expr array).asArray
    let v ← ev.expr x
    store cell (Run.storeCopy (fun heap v => heap.append cell v) v)
    return .normal
  | .memoize on => do
    memoize on
    return .normal
  | s => ev.evalStmt fuel s

theorem hostVia_self (ev : Evaluators) : ev.hostVia (fun _ => Run.perform) = ev.host :=
  rfl

theorem exprVia_self (ev : Evaluators) : ev.exprVia ev.invoke ev.host = ev.evalExpr := by
  funext x
  cases x <;> rfl

theorem stmtVia_self (ev : Evaluators) (fuel : Nat) : ev.stmtVia (fun _ => id) Run.memoize fuel = ev.evalStmt fuel := by
  funext s
  cases s <;> rfl

end Evaluators

/-- The value that the first return among the statements gives. -/
def runStatements (ev : Evaluators) (policy : StrayPolicy) : List Stmt → Run (Option Value)
  | [] => pure none
  | s :: rest => do
    match ← ev.stmt s with
    | .normal => runStatements ev policy rest
    | .returning v => pure (some v)
    | c =>
      match policy with
      | .reject => Run.fault (.stray c.flow)
      | .ignore => runStatements ev policy rest

theorem runTop_append (ev : Evaluators) (policy : StrayPolicy) (first second : List Stmt) :
    runTop ev policy (first ++ second) =
    (do
      match ← runStatements ev policy first with
      | some v => pure v
      | none => runTop ev policy second) := by
  induction first with
  | nil => rfl
  | cons s first ih =>
    rw [List.cons_append, runTop, runStatements, bind_assoc, ih]
    congr 1
    funext c
    cases c with
    | normal => rfl
    | returning v => rfl
    | breaking | continuing =>
      cases policy with
      | reject => rfl
      | ignore => rfl

theorem runTop_eq (ev : Evaluators) (policy : StrayPolicy) (program : List Stmt) : runTop ev policy program =
    (do
      match ← runStatements ev policy program with
      | some v => pure v
      | none => return (← read).empty) := by
  have whole := runTop_append ev policy program []
  rwa [List.append_nil] at whole

/-- Loops over the same steps, or over items that go together. -/
inductive Lumen.Courses (values : Value → Value → Prop) : Course → Course → Prop
  | steps (start stop : Float) : Courses values (.steps start stop) (.steps start stop)
  | items {vs vs' : List Value} (related : List.Forall₂ values vs vs') : Courses values (.items vs) (.items vs')

/-- A relation between two runs. What goes together may grow in the course of
the runs, from world to world, and where the code stands is a place. -/
structure Correspondence where
  World : Type
  order : Preorder World
  Place : Type
  /-- At a place the runs go together, and so do their results in the world they
  come to. -/
  Leads : {α : Type} → World → Place → (World → α → α → Prop) → Run α → Run α → Prop
  /-- So do runs that define a name. -/
  Defines : {α : Type} → World → Place → String → (World → α → α → Prop) → Run α → Run α → Prop
  Values : World → Value → Value → Prop
  /-- The expressions and statements that may stand at a place. -/
  Reads : Place → Expr → Prop
  Does : Place → Stmt → Prop
  /-- The place of what is within a statement. -/
  within : Place → Stmt → Place
  /-- The place behind the definition of a name. -/
  defining : Place → String → Place
  /-- Whether a signal for a loop may be sent from the place. -/
  Signals : Place → Prop
  Fueled : Nat → Nat → Prop

attribute [instance] Correspondence.order

namespace Correspondence

inductive Controls (C : Correspondence) (signals : Prop) (w : C.World) : Control → Control → Prop
  | normal : Controls C signals w .normal .normal
  | breaking (sent : signals) : Controls C signals w .breaking .breaking
  | continuing (sent : signals) : Controls C signals w .continuing .continuing
  | returning {v v' : Value} (values : C.Values w v v') : Controls C signals w (.returning v) (.returning v')

section

variable (C : Correspondence)

def behind (p : C.Place) : Stmt → C.Place
  | .define name _ => C.defining p name
  | _ => p

def Body : C.Place → List Stmt → Prop
  | _, [] => True
  | p, s :: rest => C.Does p s ∧ Body (C.behind p s) rest

def Runs {α : Type} (w : C.World) (p : C.Place) : Stmt → (C.World → α → α → Prop) → Run α → Run α → Prop
  | .define name _ => C.Defines w p name
  | _ => C.Leads w p

structure Composes : Prop where
  pure : ∀ {α : Type} {w : C.World} {p : C.Place} {R : C.World → α → α → Prop} {a b : α},
    (∀ v, w ≤ v → R v a b) → C.Leads w p R (Pure.pure a) (Pure.pure b)
  bind : ∀ {α β : Type} {w : C.World} {p : C.Place} {R : C.World → α → α → Prop} {S : C.World → β → β → Prop}
    {run run' : Run α} {next next' : α → Run β}, C.Leads w p R run run' →
    (∀ v, w ≤ v → ∀ a b, R v a b → C.Leads v p S (next a) (next' b)) → C.Leads w p S (run >>= next) (run' >>= next')
  mono : ∀ {α : Type} {w : C.World} {p : C.Place} {R S : C.World → α → α → Prop} {run run' : Run α},
    C.Leads w p R run run' → (∀ v, w ≤ v → ∀ a b, R v a b → S v a b) → C.Leads w p S run run'
  bind_defines : ∀ {α β : Type} {w : C.World} {p : C.Place} {name : String} {R : C.World → α → α → Prop}
    {S : C.World → β → β → Prop} {run run' : Run α} {next next' : α → Run β}, C.Leads w p R run run' →
    (∀ v, w ≤ v → ∀ a b, R v a b → C.Defines v p name S (next a) (next' b)) →
    C.Defines w p name S (run >>= next) (run' >>= next')
  /-- Behind a definition the name is known, and in the end it is forgotten. -/
  defines_bind : ∀ {α β : Type} {w : C.World} {p : C.Place} {name : String} {R : C.World → α → α → Prop}
    {S : C.World → β → β → Prop} {run run' : Run α} {next next' : α → Run β}, C.Defines w p name R run run' →
    (∀ v, w ≤ v → ∀ a b, R v a b → C.Leads v (C.defining p name) S (next a) (next' b)) →
    C.Leads w p S (run >>= next) (run' >>= next')
  later : ∀ {w v : C.World} {a b : Value}, w ≤ v → C.Values w a b → C.Values v a b

/-- What may stand at a place has parts that may stand there. -/
structure Contains : Prop where
  parts : ∀ {p : C.Place} {x : Expr}, C.Reads p x → ∀ y ∈ x.parts, C.Reads p y
  exprs : ∀ {p : C.Place} {s : Stmt}, C.Does p s → ∀ x ∈ s.exprs, C.Reads p x
  array : ∀ {p : C.Place} {name : String} {position x : Expr},
    C.Does p (.setItem name position x) → C.Reads p (.var name)
  block : ∀ {p : C.Place} {body : List Stmt},
    C.Does p (.block body) → C.Body (C.within p (.block body)) body
  cond : ∀ {p : C.Place} {test : Expr} {yes no : List Stmt},
    C.Does p (.cond test yes no) →
    C.Body (C.within p (.cond test yes no)) yes ∧ C.Body (C.within p (.cond test yes no)) no
  whileLoop : ∀ {p : C.Place} {test : Expr} {body : List Stmt} {negated : Bool},
    C.Does p (.whileLoop test body negated) → C.Body (C.within p (.whileLoop test body negated)) body
  endless : ∀ {p : C.Place} {body : List Stmt},
    C.Does p (.endless body) → C.Body (C.within p (.endless body)) body
  forEach : ∀ {p : C.Place} {name : String} {items : Expr} {body : List Stmt},
    C.Does p (.forEach name items body) → C.Body (C.within p (.forEach name items body)) body
  defining : ∀ {p : C.Place} {name : String}, C.Signals (C.defining p name) → C.Signals p
  /-- Signals leave a statement that is not a loop. -/
  signals : ∀ {p : C.Place} {s : Stmt}, s.isLoop = false → C.Signals (C.within p s) → C.Signals p
  breaks : ∀ {p : C.Place}, C.Does p .breakLoop → C.Signals p
  continues : ∀ {p : C.Place}, C.Does p .continueLoop → C.Signals p

structure Observes : Prop where
  literal : ∀ {w : C.World} {p : C.Place} {v : Value}, C.Reads p (.literal v) → C.Values w v v
  number : ∀ {w : C.World} (x : Float), C.Values w (.number x) (.number x)
  lookup : ∀ {w : C.World} {p : C.Place} {name : String}, C.Reads p (.var name) →
    C.Leads w p C.Values (Run.lookup name) (Run.lookup name)
  empty : ∀ {w : C.World} {p : C.Place}, C.Leads w p C.Values
    (do return (← MonadReader.read).empty : Run Value) (do return (← MonadReader.read).empty)
  truth : ∀ {w : C.World} {p : C.Place} {a b : Value}, C.Values w a b →
    C.Leads w p (fun _ => Eq) (Run.truth a) (Run.truth b)
  operation : ∀ {w : C.World} {p : C.Place} {x : Expr}
    {f : Heap → Value → Value → Except RuntimeFault Value} {a a' b b' : Value}, x.operation = some f → C.Reads p x →
    C.Values w a a' → C.Values w b b' →
    C.Leads w p C.Values (Run.read fun heap => f heap a b) (Run.read fun heap => f heap a' b')
  conversion : ∀ {w : C.World} {p : C.Place} {x : Expr} {f : Value → Except RuntimeFault Value}
    {a a' : Value}, x.conversion = some f → C.Reads p x → C.Values w a a' →
    C.Leads w p C.Values (Run.lift (f a)) (Run.lift (f a'))
  format : ∀ {w : C.World} {p : C.Place} {template : String} {args : List Expr} {vs vs' : List Value},
    C.Reads p (.format template args) → List.Forall₂ (C.Values w) vs vs' →
    C.Leads w p C.Values (Run.read fun heap => MiniRust.format template (vs.map heap.display))
      (Run.read fun heap => MiniRust.format template (vs'.map heap.display))
  asArray : ∀ {w : C.World} {p : C.Place} {a a' : Value}, C.Values w a a' →
    C.Leads w p (fun v cell cell' => C.Values v (.array cell) (.array cell')) (Run.lift a.asArray)
      (Run.lift a'.asArray)
  position : ∀ {w : C.World} {p : C.Place} {a a' : Value} {cell cell' : Nat}, C.Values w (.array cell) (.array cell') →
    C.Values w a a' →
    C.Leads w p (fun _ => Eq) (Run.read fun heap => Lumen.position a (heap.items cell).size)
      (Run.read fun heap => Lumen.position a' (heap.items cell').size)
  course : ∀ {w : C.World} {p : C.Place} {a a' : Value}, C.Values w a a' →
    C.Leads w p (fun v => Lumen.Courses (C.Values v)) (Run.read fun heap => Lumen.course heap a)
      (Run.read fun heap => Lumen.course heap a')

structure Changes : Prop where
  allocCopies : ∀ {w : C.World} {p : C.Place} {vs vs' : List Value}, List.Forall₂ (C.Values w) vs vs' →
    C.Leads w p C.Values (Run.allocCopies vs) (Run.allocCopies vs')
  define : ∀ {w : C.World} {p : C.Place} {name : String} {x : Expr} {a a' : Value},
    C.Does p (.define name x) → C.Values w a a' →
    C.Defines w p name (C.Controls (C.Signals p)) (do Run.scopes (Scopes.set name a); return .normal)
      (do Run.scopes (Scopes.set name a'); return .normal)
  assignOrSet : ∀ {w : C.World} {p : C.Place} {name : String} {x : Expr} {a a' : Value},
    C.Does p (.assign name x true) → C.Values w a a' →
    C.Leads w p (fun _ _ _ => True) (Run.scopes (Scopes.assignOrSet name a)) (Run.scopes (Scopes.assignOrSet name a'))
  assign : ∀ {w : C.World} {p : C.Place} {name : String} {x : Expr} {a a' : Value},
    C.Does p (.assign name x false) → C.Values w a a' →
    C.Leads w p (fun _ _ _ => True) (Run.assign name a) (Run.assign name a')
  declare : ∀ {w : C.World} {p : C.Place} {label : Nat} {name : String} {params : List String}
    {body : List Stmt}, C.Does p (.declare label name params body) →
    C.Leads w p (fun _ _ _ => True) (Run.scopes (Scopes.set name (.function label name params.length)))
      (Run.scopes (Scopes.set name (.function label name params.length)))
  scope : ∀ {α : Type} {w : C.World} {p : C.Place} {s : Stmt} {R : C.World → α → α → Prop}
    {part part' : Run α}, C.Does p s → (∀ name items body, s ≠ .forEach name items body) →
    C.Leads w (C.within p s) R part part' → C.Leads w p R (Run.inScope id part) (Run.inScope id part')
  round : ∀ {α : Type} {w : C.World} {p : C.Place} {name : String} {items : Expr}
    {body : List Stmt} {R : C.World → α → α → Prop} {part part' : Run α} {a a' : Value},
    C.Does p (.forEach name items body) → C.Values w a a' →
    C.Leads w (C.within p (.forEach name items body)) R part part' →
    C.Leads w p R (Run.inScope (Scopes.set name a) part) (Run.inScope (Scopes.set name a') part')

structure Ends : Prop where
  fuel_pred : ∀ {n m : Nat}, C.Fueled (n + 1) (m + 1) → C.Fueled n m
  exhausted : ∀ {α : Type} {w : C.World} {p : C.Place} {R : C.World → α → α → Prop}, C.Fueled 0 0 →
    C.Leads w p R (Run.halt .outOfFuel) (Run.halt .outOfFuel)
  exhausted_first : ∀ {α : Type} {w : C.World} {p : C.Place} {R : C.World → α → α → Prop} {run : Run α} {m : Nat},
    C.Fueled 0 (m + 1) → C.Leads w p R (Run.halt .outOfFuel) run
  exhausted_second : ∀ {α : Type} {w : C.World} {p : C.Place} {R : C.World → α → α → Prop} {run : Run α} {n : Nat},
    C.Fueled (n + 1) 0 → C.Leads w p R run (Run.halt .outOfFuel)

/-- A signal that leaves the place may go astray. -/
def Strays (p : C.Place) : Prop :=
  C.Signals p → ∀ {α : Type} {w : C.World} {q : C.Place} {R : C.World → α → α → Prop} {f : RuntimeFault}, f.isStray →
    C.Leads w q R (Run.fault f) (Run.fault f)

structure Closed : Prop extends C.Composes, C.Contains, C.Observes, C.Changes, C.Ends

structure Agrees (ev ev' : Evaluators) : Prop where
  expr : ∀ (w : C.World) (p : C.Place) x, C.Reads p x → C.Leads w p C.Values (ev.expr x) (ev'.expr x)
  stmt : ∀ (w : C.World) (p : C.Place) s, C.Does p s →
    C.Runs w p s (C.Controls (C.Signals p)) (ev.stmt s) (ev'.stmt s)

end

variable {C : Correspondence} {w v : C.World} {p : C.Place} {signals : Prop} {ev ev' : Evaluators} {fuel fuel' : Nat}
  {name : String} {x test items : Expr} {body : List Stmt}

theorem Controls.mono {signals' : Prop} {c c' : Control} (sub : signals → signals')
    (controls : C.Controls signals w c c') : C.Controls signals' w c c' := by
  cases controls with
  | normal => exact .normal
  | breaking sent => exact .breaking (sub sent)
  | continuing sent => exact .continuing (sub sent)
  | returning values => exact .returning values

namespace Closed

theorem all_later (closed : C.Closed) (le : w ≤ v) {as bs : List Value} (values : List.Forall₂ (C.Values w) as bs) :
    List.Forall₂ (C.Values v) as bs :=
  values.imp fun _ _ => closed.later le

theorem hand_on (closed : C.Closed) {c c' : Control} (controls : C.Controls signals w c c') :
    C.Leads w p (C.Controls signals) (pure c) (pure c') := by
  refine closed.pure fun v le => ?_
  cases controls with
  | normal => exact .normal
  | breaking sent => exact .breaking sent
  | continuing sent => exact .continuing sent
  | returning values => exact .returning (closed.later le values)

theorem behind (closed : C.Closed) {s : Stmt} (sent : C.Signals (C.behind p s)) : C.Signals p := by
  cases s with
  | define name x => exact closed.defining sent
  | _ => exact sent

theorem follow (closed : C.Closed) {α β : Type} {s : Stmt} {R : C.World → α → α → Prop} {S : C.World → β → β → Prop}
    {run run' : Run α} {next next' : α → Run β} (first : C.Runs w p s R run run')
    (rest : ∀ v, w ≤ v → ∀ a b, R v a b → C.Leads v (C.behind p s) S (next a) (next' b)) :
    C.Leads w p S (run >>= next) (run' >>= next') := by
  cases s with
  | define name x => exact closed.defines_bind first rest
  | _ => exact closed.bind first rest

theorem afterRound (closed : C.Closed) {next next' : Run Control}
    (more : C.Leads w p (C.Controls False) next next') (c c' : Control) : C.Controls signals w c c' →
    C.Leads w p (C.Controls False)
      (match c with
        | .breaking => pure .normal
        | .returning v => pure (.returning v)
        | _ => next)
      (match c' with
        | .breaking => pure .normal
        | .returning v => pure (.returning v)
        | _ => next') := by
  intro controls
  cases controls with
  | normal => exact more
  | breaking => exact closed.hand_on .normal
  | continuing => exact more
  | returning values => exact closed.hand_on (.returning values)

theorem fueled (closed : C.Closed) {ι : Type} (loop loop' : Nat → ι → Run Control)
    (empty : ∀ i, loop 0 i = Run.halt .outOfFuel) (empty' : ∀ i, loop' 0 i = Run.halt .outOfFuel)
    (round : ∀ fuel fuel', (∀ w i, C.Leads w p (C.Controls False) (loop fuel i) (loop' fuel' i)) →
      ∀ w i, C.Leads w p (C.Controls False) (loop (fuel + 1) i) (loop' (fuel' + 1) i))
    (fueled : C.Fueled fuel fuel') (w : C.World) (i : ι) :
    C.Leads w p (C.Controls False) (loop fuel i) (loop' fuel' i) := by
  induction fuel generalizing fuel' w i with
  | zero =>
    cases fuel' with
    | zero =>
      rw [empty, empty']
      exact closed.exhausted fueled
    | succ fuel' =>
      rw [empty]
      exact closed.exhausted_first fueled
  | succ fuel ih =>
    cases fuel' with
    | zero =>
      rw [empty']
      exact closed.exhausted_second fueled
    | succ fuel' => exact round fuel fuel' (fun w i => ih (closed.fuel_pred fueled) w i) w i

end Closed

namespace Agrees

theorem all (agrees : C.Agrees ev ev') (closed : C.Closed) {xs : List Expr}
    (stand : ∀ x ∈ xs, C.Reads p x) :
    C.Leads w p (fun v => List.Forall₂ (C.Values v)) (ev.all xs) (ev'.all xs) := by
  induction xs generalizing w with
  | nil => exact closed.pure fun _ _ => .nil
  | cons x xs ih =>
    obtain ⟨here, later⟩ := List.forall_mem_cons.1 stand
    refine closed.bind (agrees.expr w p x here) fun v _ a b value => ?_
    refine closed.bind (ih later) fun u le as bs values => ?_
    exact closed.pure fun t le' => .cons (closed.later (le.trans le') value) (closed.all_later le' values)

theorem sequence (agrees : C.Agrees ev ev') (closed : C.Closed) (stand : C.Body p body) :
    C.Leads w p (C.Controls (C.Signals p)) (ev.sequence body) (ev'.sequence body) := by
  induction body generalizing p w with
  | nil => exact closed.hand_on .normal
  | cons s rest ih =>
    refine closed.follow (agrees.stmt w p s stand.1) fun v _ c c' controls => ?_
    cases controls with
    | normal => exact closed.mono (ih stand.2) fun _ _ _ _ => .mono closed.behind
    | breaking sent => exact closed.hand_on (.breaking sent)
    | continuing sent => exact closed.hand_on (.continuing sent)
    | returning values => exact closed.hand_on (.returning values)

theorem block (agrees : C.Agrees ev ev') (closed : C.Closed) {s : Stmt} (does : C.Does p s)
    (unbound : ∀ name items body, s ≠ .forEach name items body) (stand : C.Body (C.within p s) body) :
    C.Leads w p (C.Controls (C.Signals (C.within p s))) (ev.block body) (ev'.block body) :=
  closed.scope does unbound (agrees.sequence closed stand)

theorem branch (agrees : C.Agrees ev ev') (closed : C.Closed) {s : Stmt} (does : C.Does p s)
    (straight : s.isLoop = false) (stand : C.Body (C.within p s) body) :
    C.Leads w p (C.Controls (C.Signals p)) (ev.block body) (ev'.block body) := by
  have unbound (name : String) (items : Expr) (inner : List Stmt) : s ≠ .forEach name items inner := by
    rintro rfl
    cases straight
  exact closed.mono (agrees.block closed does unbound stand) fun _ _ _ _ => .mono (closed.signals straight)

theorem functionBody (agrees : C.Agrees ev ev') (closed : C.Closed) (strays : C.Strays p) (name : String)
    (stand : C.Body p body) :
    C.Leads w p C.Values (ev.body name body) (ev'.body name body) := by
  induction body generalizing p w with
  | nil => exact closed.empty
  | cons s rest ih =>
    by_cases last : ∃ x, s = .expr x ∧ rest = []
    · obtain ⟨x, rfl, rfl⟩ := last
      exact agrees.expr w p x (closed.exprs stand.1 x List.mem_cons_self)
    · have unfinished (x : Expr) (same : s = .expr x) (alone : rest = []) : False := last ⟨x, same, alone⟩
      rw [Evaluators.body.eq_3 ev name s rest unfinished, Evaluators.body.eq_3 ev' name s rest unfinished]
      refine closed.follow (agrees.stmt w p s stand.1) fun v _ c c' controls => ?_
      cases controls with
      | normal => exact ih (fun sent => strays (closed.behind sent)) stand.2
      | breaking sent | continuing sent => exact strays sent rfl
      | returning values => exact closed.pure fun u le => closed.later le values

theorem whileLoop (agrees : C.Agrees ev ev') (closed : C.Closed) {s : Stmt} (does : C.Does p s)
    (unbound : ∀ name items body, s ≠ .forEach name items body) (tested : C.Reads p test)
    (stand : C.Body (C.within p s) body) (wanted : Bool) (fueled : C.Fueled fuel fuel') :
    C.Leads w p (C.Controls False) (ev.whileLoop test wanted body fuel)
      (ev'.whileLoop test wanted body fuel') := by
  refine closed.fueled (fun n (_ : Unit) => ev.whileLoop test wanted body n)
    (fun n _ => ev'.whileLoop test wanted body n) (fun _ => rfl) (fun _ => rfl)
    (fun fuel fuel' more w _ => ?_) fueled w ()
  refine closed.bind (agrees.expr w p test tested) fun v _ a b value => ?_
  refine closed.bind (closed.truth value) fun u _ holds _ same => ?_
  subst same
  cases holds != wanted with
  | true => exact closed.hand_on .normal
  | false =>
    exact closed.bind (agrees.block closed does unbound stand) fun t _ c c' controls =>
      closed.afterRound (more t ()) c c' controls

theorem endless (agrees : C.Agrees ev ev') (closed : C.Closed) {s : Stmt} (does : C.Does p s)
    (unbound : ∀ name items body, s ≠ .forEach name items body) (stand : C.Body (C.within p s) body)
    (fueled : C.Fueled fuel fuel') :
    C.Leads w p (C.Controls False) (ev.endless body fuel) (ev'.endless body fuel') := by
  refine closed.fueled (fun n (_ : Unit) => ev.endless body n) (fun n _ => ev'.endless body n)
    (fun _ => rfl) (fun _ => rfl) (fun fuel fuel' more w _ => ?_) fueled w ()
  exact closed.bind (agrees.block closed does unbound stand) fun t _ c c' controls =>
    closed.afterRound (more t ()) c c' controls

section

variable (agrees : C.Agrees ev ev') (closed : C.Closed) (does : C.Does p (.forEach name items body))
include agrees closed does

theorem item {a a' : Value} (value : C.Values w a a') :
    C.Leads w p (C.Controls (C.Signals (C.within p (.forEach name items body)))) (ev.round name a body)
      (ev'.round name a' body) :=
  closed.round does value (agrees.sequence closed (closed.forEach does))

theorem forItems {as bs : List Value} (values : List.Forall₂ (C.Values w) as bs) :
    C.Leads w p (C.Controls False) (ev.forItems name body as) (ev'.forItems name body bs) := by
  induction as generalizing w bs with
  | nil =>
    cases values
    exact closed.hand_on .normal
  | cons a as ih =>
    cases values with
    | cons value rest =>
      refine closed.bind (agrees.item closed does value) fun v le c c' controls => ?_
      exact closed.afterRound (ih (closed.all_later le rest)) c c' controls

theorem forSteps (stop : Float) (fueled : C.Fueled fuel fuel') (x : Float) :
    C.Leads w p (C.Controls False) (ev.forSteps name body stop fuel x) (ev'.forSteps name body stop fuel' x) := by
  refine closed.fueled (ev.forSteps name body stop) (ev'.forSteps name body stop) (fun _ => rfl) (fun _ => rfl)
    (fun fuel fuel' more w x => ?_) fueled w x
  simp only [Evaluators.forSteps]
  split
  · exact closed.hand_on .normal
  · refine closed.bind (agrees.item closed does (closed.number x)) fun v _ c c' controls => ?_
    exact closed.afterRound (more v (x + 1)) c c' controls

theorem forEachLoop (fueled : C.Fueled fuel fuel') :
    C.Leads w p (C.Controls False) (ev.forEach name items body fuel) (ev'.forEach name items body fuel') := by
  refine closed.bind (agrees.expr w p items (closed.exprs does items List.mem_cons_self)) fun v _ a b value => ?_
  refine closed.bind (closed.course value) fun u _ c d courses => ?_
  cases courses with
  | steps start stop => exact agrees.forSteps closed does stop fueled start
  | items values => exact agrees.forItems closed does values

end

theorem loop (agrees : C.Agrees ev ev') (closed : C.Closed) (fueled : C.Fueled fuel fuel') {s : Stmt}
    (isLoop : s.isLoop) (does : C.Does p s) :
    C.Leads w p (C.Controls False) (ev.evalStmt fuel s) (ev'.evalStmt fuel' s) := by
  cases s with
  | whileLoop test body negated =>
    have tested := closed.exprs does test List.mem_cons_self
    exact agrees.whileLoop closed does nofun tested (closed.whileLoop does) (!negated) fueled
  | endless body => exact agrees.endless closed does nofun (closed.endless does) fueled
  | forEach name items body => exact agrees.forEachLoop closed does fueled
  | _ => cases isLoop

theorem two (agrees : C.Agrees ev ev') (closed : C.Closed) {left right : Expr}
    {f : Heap → Value → Value → Except RuntimeFault Value} (here : x.operation = some f) (parts : x.parts = [left, right])
    (reads : C.Reads p x) : C.Leads w p C.Values (ev.two left right f) (ev'.two left right f) := by
  have operands := closed.parts reads
  rw [parts] at operands
  refine closed.bind (agrees.expr w p left (operands _ (by simp))) fun v _ a b first => ?_
  refine closed.bind (agrees.expr v p right (operands _ (by simp))) fun u le c d second => ?_
  exact closed.operation here reads (closed.later le first) second

theorem one (agrees : C.Agrees ev ev') (closed : C.Closed) {y : Expr} {f : Value → Except RuntimeFault Value}
    (here : x.conversion = some f) (parts : x.parts = [y]) (reads : C.Reads p x) :
    C.Leads w p C.Values (ev.one y f) (ev'.one y f) := by
  have operands := closed.parts reads
  rw [parts] at operands
  exact closed.bind (agrees.expr w p y (operands _ List.mem_cons_self)) fun v _ a b value =>
    closed.conversion here reads value

theorem exprVia (agrees : C.Agrees ev ev') (closed : C.Closed) {invoke invoke' : Value → List Value → Run Value}
    {host host' : String → List Key → List Expr → Run Value}
    (invokes : ∀ v f f' as bs, C.Values v f f' → List.Forall₂ (C.Values v) as bs →
      C.Leads v p C.Values (invoke f as) (invoke' f' bs))
    (hosts : ∀ selector keys args, x = .hostCall selector keys args →
      C.Leads w p C.Values (host selector keys args) (host' selector keys args))
    (reads : C.Reads p x) : C.Leads w p C.Values (ev.exprVia invoke host x) (ev'.exprVia invoke' host' x) := by
  have parts := closed.parts reads
  cases x with
  | literal v => exact closed.pure fun u _ => closed.literal reads
  | var name => exact closed.lookup reads
  | and left right =>
    refine closed.bind (agrees.expr w p left (parts left (by simp [Expr.parts]))) fun v _ a b value => ?_
    refine closed.bind (closed.truth value) fun u le holds _ same => ?_
    subst same
    cases holds with
    | true => exact agrees.expr u p right (parts right (by simp [Expr.parts]))
    | false => exact closed.pure fun t le' => closed.later (le.trans le') value
  | or left right =>
    refine closed.bind (agrees.expr w p left (parts left (by simp [Expr.parts]))) fun v _ a b value => ?_
    refine closed.bind (closed.truth value) fun u le holds _ same => ?_
    subst same
    cases holds with
    | true => exact closed.pure fun t le' => closed.later (le.trans le') value
    | false => exact agrees.expr u p right (parts right (by simp [Expr.parts]))
  | call callee args =>
    obtain ⟨called, given⟩ := List.forall_mem_cons.1 parts
    refine closed.bind (agrees.expr w p callee called) fun v _ f f' function => ?_
    refine closed.bind (agrees.all closed given) fun u le as bs values => ?_
    exact invokes u f f' as bs (closed.later le function) values
  | pipe y function args =>
    obtain ⟨first, later⟩ := List.forall_mem_cons.1 parts
    obtain ⟨called, given⟩ := List.forall_mem_cons.1 later
    refine closed.bind (agrees.expr w p y first) fun v _ a b value => ?_
    refine closed.bind (agrees.expr v p function called) fun u le f f' callee => ?_
    refine closed.bind (agrees.all closed given) fun t le' as bs values => ?_
    exact invokes t f f' _ _ (closed.later le' callee) (.cons (closed.later (le.trans le') value) values)
  | hostCall selector keys args => exact hosts selector keys args rfl
  | array items => exact closed.bind (agrees.all closed parts) fun v _ as bs values => closed.allocCopies values
  | format template args => exact closed.bind (agrees.all closed parts) fun v _ as bs values => closed.format reads values
  | negate _ | not _ | intNegate _ | flagNot _ => exact agrees.one closed rfl rfl reads
  | binary _ _ _ | compare _ _ _ | range _ _ | index _ _ | intBinary _ _ _ | intCompare _ _ _ =>
    exact agrees.two closed rfl rfl reads

section

variable {store store' : Nat → Run Unit → Run Unit} {memoize memoize' : Bool → Run Unit}

def Stores (C : Correspondence) (p : C.Place) (store store' : Nat → Run Unit → Run Unit) : Prop :=
  ∀ (w : C.World) (cell cell' : Nat) (a a' : Value), C.Values w (.array cell) (.array cell') → C.Values w a a' →
    (∀ i, C.Leads w p (fun _ _ _ => True) (store cell (Run.storeCopy (fun heap v => heap.replace cell i v) a))
      (store' cell' (Run.storeCopy (fun heap v => heap.replace cell' i v) a'))) ∧
    C.Leads w p (fun _ _ _ => True) (store cell (Run.storeCopy (fun heap v => heap.append cell v) a))
      (store' cell' (Run.storeCopy (fun heap v => heap.append cell' v) a'))

theorem setItem (agrees : C.Agrees ev ev') (closed : C.Closed) (stores : Stores C p store store') {position : Expr}
    (does : C.Does p (.setItem name position x)) :
    C.Leads w p (C.Controls (C.Signals p)) (ev.stmtVia store memoize fuel (.setItem name position x))
      (ev'.stmtVia store' memoize' fuel' (.setItem name position x)) := by
  have exprs := closed.exprs does
  refine closed.bind (closed.lookup (closed.array does)) fun w₁ _ a a' array => ?_
  refine closed.bind (closed.asArray array) fun w₂ _ cell cell' cells => ?_
  refine closed.bind (agrees.expr w₂ p position (exprs _ (by simp [Stmt.exprs]))) fun w₃ first i i' place => ?_
  refine closed.bind (closed.position (closed.later first cells) place) fun w₄ second n n' same => ?_
  subst same
  refine closed.bind (agrees.expr w₄ p x (exprs _ (by simp [Stmt.exprs]))) fun w₅ third b b' value => ?_
  have known := closed.later (first.trans (second.trans third)) cells
  exact closed.bind ((stores w₅ cell cell' b b' known value).1 n) fun _ _ _ _ _ => closed.hand_on .normal

theorem push (agrees : C.Agrees ev ev') (closed : C.Closed) (stores : Stores C p store store') {array : Expr}
    (does : C.Does p (.push array x)) :
    C.Leads w p (C.Controls (C.Signals p)) (ev.stmtVia store memoize fuel (.push array x))
      (ev'.stmtVia store' memoize' fuel' (.push array x)) := by
  have exprs := closed.exprs does
  refine closed.bind (agrees.expr w p array (exprs _ (by simp [Stmt.exprs]))) fun w₁ _ a a' target => ?_
  refine closed.bind (closed.asArray target) fun w₂ _ cell cell' cells => ?_
  refine closed.bind (agrees.expr w₂ p x (exprs _ (by simp [Stmt.exprs]))) fun w₃ le b b' value => ?_
  exact closed.bind (stores w₃ cell cell' b b' (closed.later le cells) value).2 fun _ _ _ _ _ => closed.hand_on .normal

theorem stmtVia (agrees : C.Agrees ev ev') (closed : C.Closed) (fueled : C.Fueled fuel fuel')
    (stores : Stores C p store store') {s : Stmt}
    (switches : ∀ v on, s = .memoize on → C.Leads v p (fun _ _ _ => True) (memoize on) (memoize' on))
    (does : C.Does p s) :
    C.Runs w p s (C.Controls (C.Signals p)) (ev.stmtVia store memoize fuel s)
      (ev'.stmtVia store' memoize' fuel' s) := by
  have exprs := closed.exprs does
  cases s with
  | expr x => exact closed.bind (agrees.expr w p x (exprs x List.mem_cons_self)) fun _ _ _ _ _ => closed.hand_on .normal
  | define name x =>
    exact closed.bind_defines (agrees.expr w p x (exprs x List.mem_cons_self)) fun v _ a a' value =>
      closed.define does value
  | assign name x orDefine =>
    refine closed.bind (agrees.expr w p x (exprs x List.mem_cons_self)) fun v _ a a' value => ?_
    cases orDefine with
    | true => exact closed.bind (closed.assignOrSet does value) fun _ _ _ _ _ => closed.hand_on .normal
    | false => exact closed.bind (closed.assign does value) fun _ _ _ _ _ => closed.hand_on .normal
  | block body => exact agrees.branch closed does rfl (closed.block does)
  | cond test yes no =>
    obtain ⟨first, second⟩ := closed.cond does
    refine closed.bind (agrees.expr w p test (exprs test List.mem_cons_self)) fun v _ a a' value => ?_
    refine closed.bind (closed.truth value) fun u _ holds _ same => ?_
    subst same
    cases holds with
    | true => exact agrees.branch closed does rfl first
    | false =>
      cases no with
      | nil => exact closed.hand_on .normal
      | cons s rest => exact agrees.branch closed does rfl second
  | whileLoop | endless | forEach =>
    exact closed.mono (agrees.loop closed fueled rfl does) fun _ _ _ _ => .mono False.elim
  | breakLoop => exact closed.hand_on (.breaking (closed.breaks does))
  | continueLoop => exact closed.hand_on (.continuing (closed.continues does))
  | returnWith x =>
    cases x with
    | none =>
      change C.Leads w p _ ((do return (← MonadReader.read).empty : Run Value) >>= fun v => pure (Control.returning v))
        ((do return (← MonadReader.read).empty : Run Value) >>= fun v => pure (Control.returning v))
      exact closed.bind closed.empty fun _ _ _ _ value => closed.hand_on (.returning value)
    | some x =>
      exact closed.bind (agrees.expr w p x (exprs x List.mem_cons_self)) fun _ _ _ _ value =>
        closed.hand_on (.returning value)
  | declare label name params body =>
    exact closed.bind (closed.declare does) fun _ _ _ _ _ => closed.hand_on .normal
  | setItem name position x => exact agrees.setItem closed stores does
  | push array x => exact agrees.push closed stores does
  | memoize on => exact closed.bind (switches w on rfl) fun _ _ _ _ _ => closed.hand_on .normal

end

theorem statements (agrees : C.Agrees ev ev') (closed : C.Closed) (strays : C.Strays p) (policy : StrayPolicy)
    {program : List Stmt} (stand : C.Body p program) :
    C.Leads w p (fun v => Option.Rel (C.Values v)) (runStatements ev policy program)
      (runStatements ev' policy program) := by
  induction program generalizing p w with
  | nil => exact closed.pure fun _ _ => .none
  | cons s rest ih =>
    refine closed.follow (agrees.stmt w p s stand.1) fun v _ c c' controls => ?_
    cases controls with
    | normal => exact ih (fun sent => strays (closed.behind sent)) stand.2
    | returning values => exact closed.pure fun u le => .some (closed.later le values)
    | breaking sent | continuing sent =>
      cases policy with
      | reject => exact strays sent rfl
      | ignore => exact ih (fun sent => strays (closed.behind sent)) stand.2

theorem program (agrees : C.Agrees ev ev') (closed : C.Closed) (strays : C.Strays p) (policy : StrayPolicy)
    {program : List Stmt} (stand : C.Body p program) :
    C.Leads w p C.Values (runTop ev policy program) (runTop ev' policy program) := by
  rw [runTop_eq, runTop_eq]
  refine closed.bind (agrees.statements closed strays policy stand) fun v _ returned returned' values => ?_
  cases values with
  | none => exact closed.empty
  | some value => exact closed.pure fun u le => closed.later le value

end Agrees

end Correspondence

end ScriptKernel
