import ScriptKernel.Proofs.Machine.Correspondence

/-!
Disciplines. A discipline says what holds of the states that a run goes through
and of the values it comes by, how the run may change a state from its beginning
to its end, and for which reasons it may stop; and beside it a second run does
the same, unless the first stops for a reason that excuses it. A discipline that
the single changes of a state keep is kept by whatever is evaluated.
-/

namespace ScriptKernel

namespace State

/-- The state with a scope of its own for a part to run in, where some names are
bound; in a call one more is counted. -/
def enter (st : State) (calls : Nat) (bindings : List (String × Value)) : State :=
  { st with
    scopes := bindings.foldl (fun s (name, v) => s.set name v) st.scopes.push
    calls := st.calls + calls }

def leave (last : State) (depth calls : Nat) : State :=
  { last with scopes := last.scopes.unwind depth, calls := last.calls - calls }

end State

namespace Run

variable {α : Type}

def framed (calls : Nat) (bindings : List (String × Value)) (part : Run α) : Run α := fun setting st =>
  match part setting (st.enter calls bindings) with
  | .ok a last => .ok a (last.leave st.scopes.depth calls)
  | .error h last => .error h (last.leave st.scopes.depth calls)

theorem inScope_id (part : Run α) : inScope id part = framed 0 [] part :=
  rfl

theorem inScope_set (name : String) (v : Value) (part : Run α) :
    inScope (Scopes.set name v) part = framed 0 [(name, v)] part :=
  rfl

theorem perform_of_asked {setting : Setting} {st : State} {capability : Capability} {args : List Value} {heap : Heap}
    {console : Console} {result : Except RuntimeFault Value}
    (asked : setting.host capability st.heap args st.console.called = ((heap, console), result)) :
    perform capability args setting st = lift result setting { st with heap := heap, console := console } := by
  obtain ⟨scopes, before, memo, calls, written⟩ := st
  dsimp only at asked
  simp only [perform, asked]

end Run

theorem Evaluators.activate_eq (ev : Evaluators) (f : Function) (args : List Value) :
    ev.activate f args = Run.framed 1 (f.params.zip args) (ev.body f.name f.body) := by
  funext setting st
  unfold activate Run.inScope Run.framed State.enter
  dsimp only
  cases ev.body f.name f.body setting _ <;> rfl

def Setting.Enters (setting : Setting) (calls : Nat) : Prop :=
  ¬(0 < setting.maxCalls ∧ setting.maxCalls ≤ calls)

def Setting.Offers (setting : Setting) (capability : Capability) : Prop :=
  ∃ keys key, setting.capabilities.bind (·.first? keys) = some (key, capability)

/-- The preorder in which everything is below everything. -/
@[reducible] def indiscrete (World : Type) : Preorder World where
  le _ _ := True
  le_refl _ := trivial
  le_trans _ _ _ _ _ := trivial

structure Discipline where
  setting : Setting
  setting' : Setting := setting
  World : Type := Unit
  order : Preorder World := indiscrete World
  Place : Type := Unit
  Holds : World → Place → State → Prop := fun _ _ _ => True
  Good : World → Value → Prop := fun _ _ => True
  Moves : Place → State → State → Prop := fun _ _ _ => True
  Stops : Halt → Prop := fun _ => True
  /-- Stopping for such a reason, the first run is followed no further. -/
  Excuses : Halt → Prop := fun _ => False
  /-- The place of a call, and that of the function's body. -/
  call : Place → Place := id
  body : Place → Place := id

attribute [instance] Discipline.order

namespace Discipline

structure Code (D : Discipline) where
  Reads : D.Place → Expr → Prop := fun _ _ => True
  Does : D.Place → Stmt → Prop := fun _ _ => True
  within : D.Place → Stmt → D.Place := fun p _ => p
  Signals : D.Place → Prop := fun _ => True

section

variable (D : Discipline)

/-- How two results from a state go together. -/
inductive Ends {α : Type} (w : D.World) (p : D.Place) (R : D.World → α → α → Prop) (st : State) :
    EStateM.Result Halt State α → EStateM.Result Halt State α → Prop
  | excused {h : Halt} {last : State} {result : EStateM.Result Halt State α} (excuses : D.Excuses h) :
      Ends w p R st (.error h last) result
  | ok {a b : α} {last : State} {v : D.World} (moves : D.Moves p st last) (le : w ≤ v) (holds : D.Holds v p last)
      (related : R v a b) : Ends w p R st (.ok a last) (.ok b last)
  | error {h : Halt} {last : State} {v : D.World} (moves : D.Moves p st last) (le : w ≤ v) (holds : D.Holds v p last)
      (stops : D.Stops h) : Ends w p R st (.error h last) (.error h last)

def Leads {α : Type} (w : D.World) (p : D.Place) (R : D.World → α → α → Prop) (run run' : Run α) : Prop :=
  ∀ u, w ≤ u → ∀ st, D.Holds u p st → D.Ends u p R st (run D.setting st) (run' D.setting' st)

def Same (w : D.World) (a b : Value) : Prop :=
  a = b ∧ D.Good w a

/-- The discipline as a relation of runs. -/
def correspondence (code : D.Code) : Correspondence where
  World := D.World
  order := D.order
  Place := D.Place
  Leads := D.Leads
  Defines w p _ := D.Leads w p
  Values := D.Same
  Reads := code.Reads
  Does := code.Does
  within := code.within
  defining p _ := p
  Signals := code.Signals
  Fueled := Eq

/-- The single changes of a state, with the values that they bring about. -/
inductive Change (code : D.Code) (w : D.World) (p : D.Place) (st : State) : State → List Value → Prop
  | set {s : Stmt} {name : String} {v : Value} (does : code.Does p s) (target : name ∈ s.targets)
      (good : D.Good w v) : Change code w p st { st with scopes := st.scopes.set name v } []
  | assignOrSet {name : String} {x : Expr} {v : Value} (does : code.Does p (.assign name x true))
      (good : D.Good w v) : Change code w p st { st with scopes := st.scopes.assignOrSet name v } []
  | assign {name : String} {x : Expr} {v : Value} {scopes : Scopes} (does : code.Does p (.assign name x false))
      (good : D.Good w v) (found : st.scopes.assign? name v = some scopes) :
      Change code w p st { st with scopes := scopes } []
  | collect {vs : List Value} (given : ∀ v ∈ vs, D.Good w v)
      (native : ∃ module name arity, D.Good w (.native module name arity .collect)) :
      Change code w p st { st with heap := (st.heap.alloc vs.toArray).1 } [(st.heap.alloc vs.toArray).2]
  | copies {vs : List Value} (given : ∀ v ∈ vs, D.Good w v) :
      Change code w p st { st with heap := ((st.heap.copies vs).1.alloc (st.heap.copies vs).2).1 }
        [((st.heap.copies vs).1.alloc (st.heap.copies vs).2).2]
  | replace {cell i : Nat} {v : Value} (known : D.Good w (.array cell)) (good : D.Good w v) (present : v ≠ .absent) :
      Change code w p st { st with heap := (st.heap.copy v).1.replace cell i (st.heap.copy v).2 } []
  | append {cell : Nat} {v : Value} (known : D.Good w (.array cell)) (good : D.Good w v) (present : v ≠ .absent) :
      Change code w p st { st with heap := (st.heap.copy v).1.append cell (st.heap.copy v).2 } []
  | memoize {memo : Memo} {on : Bool} (does : code.Does p (.memoize on)) (cached : st.memo = some memo) :
      Change code w p st { st with memo := some (memo.enable on) } []
  | hit {memo : Memo} {label : Nat} {key : String} {v : Value} (cached : st.memo = some memo)
      (on : memo.enabled = true) (found : memo.find? label key = some v) :
      Change code w p st { st with memo := some memo.hit } [v]
  | answer {capability : Capability} {args : List Value} {heap : Heap} {console : Console} {v : Value}
      (offered : D.setting.Offers capability) (given : ∀ a ∈ args, D.Good w a)
      (asked : D.setting.host capability st.heap args st.console.called = ((heap, console), .ok v)) :
      Change code w p st { st with heap := heap, console := console } [v]
  | refusal {capability : Capability} {args : List Value} {heap : Heap} {console : Console} {f : RuntimeFault}
      (offered : D.setting.Offers capability) (given : ∀ a ∈ args, D.Good w a)
      (asked : D.setting.host capability st.heap args st.console.called = ((heap, console), .error f)) :
      Change code w p st { st with heap := heap, console := console } []

/-- The settings differ only where the first run stops before it shows. -/
structure Fair : Prop where
  sameDialect : D.setting'.dialect = D.setting.dialect
  sameEmpty : D.setting'.empty = D.setting.empty
  sameHost : D.setting'.host = D.setting.host
  sameCode : ∀ label : Nat, D.setting'.code[label]? = D.setting.code[label]? ∨
    D.setting.code[label]? = none ∧ ∀ kind, D.Excuses (.fault (.cannotCall kind))
  sameBound : D.setting'.maxCalls = D.setting.maxCalls ∨
    (∀ name, D.Excuses (.fault (.callDepth D.setting.maxCalls name))) ∧
      ∀ active : Nat, D.setting.Enters active → D.setting'.Enters active

structure Valued (code : D.Code) : Prop where
  later : ∀ {w v : D.World} {a : Value}, w ≤ v → D.Good w a → D.Good v a
  plain : ∀ {w : D.World} {a : Value}, a.Plain → D.Good w a
  literal : ∀ {w : D.World} {p : D.Place} {a : Value}, code.Reads p (.literal a) → D.Good w a
  empty : ∀ {w : D.World}, D.Good w D.setting.empty
  lookup : ∀ {w : D.World} {p : D.Place} {st : State} {name : String} {a : Value}, D.Holds w p st →
    st.scopes.find? name = some a → D.Good w a
  item : ∀ {w : D.World} {p : D.Place} {st : State} {cell : Nat} {a : Value}, D.Holds w p st →
    a ∈ st.heap.items cell → D.Good w a

structure Reasoned (code : D.Code) : Prop where
  operand : OfOperands fun f => D.Stops (.fault f)
  operator : ∀ {p : D.Place} {x : Expr} {f : Heap → Value → Value → Except RuntimeFault Value},
    x.operation = some f → code.Reads p x → ∀ heap a b, Faults (fun e => D.Stops (.fault e)) (f heap a b)
  stray : ∀ {p : D.Place} {f : RuntimeFault}, f.isStray → code.Signals (D.body p) → D.Stops (.fault f)
  fuel : D.Stops .outOfFuel
  absent : ∀ {w : D.World}, D.Good w .absent → D.Stops .missing
  uncached : ∀ {w : D.World} {p : D.Place} {st : State}, D.Holds w p st → st.memo = none → D.Stops .missing
  refused : ∀ {w : D.World} {p : D.Place} {st : State} {capability : Capability} {args : List Value}
    {after : Heap × Console} {f : RuntimeFault}, D.Holds w p st → (∀ a ∈ args, D.Good w a) →
    D.setting.host capability st.heap args st.console.called = (after, .error f) → D.Stops (.fault f)

structure Kept (code : D.Code) : Prop where
  refl : ∀ (p : D.Place) (st : State), D.Moves p st st
  trans : ∀ {p : D.Place} {st mid last : State}, D.Moves p st mid → D.Moves p mid last → D.Moves p st last
  change : ∀ {w : D.World} {p : D.Place} {st last : State} {made : List Value}, D.Holds w p st →
    D.Change code w p st last made → D.Moves p st last ∧ ∃ v, w ≤ v ∧ D.Holds v p last ∧ ∀ a ∈ made, D.Good v a
  /-- A part within a statement, or the body of a function that is called. -/
  frame : ∀ {w : D.World} {p q : D.Place} {calls : Nat} {bindings : List (String × Value)} {st : State},
    ((∃ s, code.Does p s ∧ q = code.within p s ∧ calls = 0) ∨ q = D.body p ∧ calls = 1) → D.Holds w p st →
    (∀ binding ∈ bindings, D.Good w binding.2) →
    D.Holds w q (st.enter calls bindings) ∧ ∀ v last, w ≤ v → D.Holds v q last →
      D.Moves q (st.enter calls bindings) last →
      D.Holds v p (last.leave st.scopes.depth calls) ∧ D.Moves p st (last.leave st.scopes.depth calls)
  /-- What a call has given while the cache was on is kept. -/
  store : ∀ {w : D.World} {p : D.Place} {st last : State} {memo : Memo} {label : Nat} {key : String} {v : Value},
    st.memo = some memo → memo.enabled = true → memo.find? label key = none → D.Holds w (D.call p) last →
    D.Moves (D.call p) st last → D.Good w v →
    D.Holds w (D.call p) { last with memo := last.memo.map (·.store label key v) } ∧
      D.Moves (D.call p) st { last with memo := last.memo.map (·.store label key v) }
  call : ∀ {w : D.World} {p : D.Place} {st : State}, D.Holds w (D.call p) st ↔ D.Holds w p st
  called : ∀ {p : D.Place} {st last : State}, D.Moves (D.call p) st last → D.Moves p st last

structure Lawful (code : D.Code) : Prop extends D.Fair, D.Valued code, D.Reasoned code, D.Kept code

end

variable {D : Discipline} {code : D.Code} {α β : Type} {w : D.World} {p : D.Place} {R : D.World → α → α → Prop}
  {run run' : Run α}

theorem body_of_all {body : List Stmt} (does : ∀ s ∈ body, code.Does p s) : (D.correspondence code).Body p body := by
  induction body with
  | nil => trivial
  | cons s rest ih =>
    obtain ⟨here, later⟩ := List.forall_mem_cons.1 does
    refine ⟨here, ?_⟩
    cases s <;> exact ih later

theorem contains_of_parts (parts : ∀ {p x y}, code.Reads p x → y ∈ x.parts → code.Reads p y)
    (exprs : ∀ {p s x}, code.Does p s → x ∈ s.exprs → code.Reads p x)
    (array : ∀ {p name position x}, code.Does p (.setItem name position x) → code.Reads p (.var name))
    (inner : ∀ {p s t}, code.Does p s → t ∈ s.inner → code.Does (code.within p s) t)
    (signals : ∀ {p s}, s.isLoop = false → code.Signals (code.within p s) → code.Signals p)
    (breaks : ∀ {p}, code.Does p .breakLoop → code.Signals p)
    (continues : ∀ {p}, code.Does p .continueLoop → code.Signals p) : (D.correspondence code).Contains where
  parts reads _ := parts reads
  exprs does _ := exprs does
  array := array
  block does := body_of_all fun _ => inner does
  cond does := ⟨body_of_all fun _ member => inner does (List.mem_append_left _ member),
    body_of_all fun _ member => inner does (List.mem_append_right _ member)⟩
  whileLoop does := body_of_all fun _ => inner does
  endless does := body_of_all fun _ => inner does
  forEach does := body_of_all fun _ => inner does
  defining := id
  signals := signals
  breaks := breaks
  continues := continues

theorem contains_all : (D.correspondence {}).Contains :=
  contains_of_parts (fun _ _ => trivial) (fun _ _ => trivial) (fun _ => trivial) (fun _ _ => trivial)
    (fun _ _ => trivial) (fun _ => trivial) fun _ => trivial

theorem Fair.of_same (same : D.setting' = D.setting) : D.Fair := by
  refine ⟨?_, ?_, ?_, fun _ => Or.inl ?_, Or.inl ?_⟩ <;> rw [same]

theorem Valued.of_any (good : ∀ w a, D.Good w a) : D.Valued code where
  later _ _ := good _ _
  plain _ := good _ _
  literal _ := good _ _
  empty := good _ _
  lookup _ _ := good _ _
  item _ _ := good _ _

theorem Reasoned.of_any (stops : ∀ h, D.Stops h) : D.Reasoned code where
  operand _ _ _ := stops _
  operator _ _ _ _ _ _ _ := stops _
  stray _ _ := stops _
  fuel := stops _
  absent _ := stops _
  uncached _ _ := stops _
  refused _ _ _ := stops _

theorem Kept.of_any (holds : ∀ w p st, D.Holds w p st) (moves : ∀ p st last, D.Moves p st last)
    (good : ∀ w a, D.Good w a) : D.Kept code where
  refl _ _ := moves _ _ _
  trans _ _ := moves _ _ _
  change {w} _ _ _ _ _ _ := ⟨moves _ _ _, w, le_rfl, holds _ _ _, fun _ _ => good _ _⟩
  frame _ _ _ := ⟨holds _ _ _, fun _ _ _ _ _ => ⟨holds _ _ _, moves _ _ _⟩⟩
  store _ _ _ _ _ _ := ⟨holds _ _ _, moves _ _ _⟩
  call := iff_of_true (holds _ _ _) (holds _ _ _)
  called _ := moves _ _ _

theorem Kept.lawful (kept : D.Kept code) (same : D.setting' = D.setting) (good : ∀ w a, D.Good w a)
    (stops : ∀ h, D.Stops h) : D.Lawful code where
  toFair := .of_same same
  toValued := .of_any good
  toReasoned := .of_any stops
  toKept := kept

namespace Leads

theorem pure (lawful : D.Lawful code) {a b : α} (holds : ∀ v, w ≤ v → R v a b) :
    D.Leads w p R (Pure.pure a) (Pure.pure b) :=
  fun u le st here => .ok (lawful.refl p st) le_rfl here (holds u le)

theorem mono {S : D.World → α → α → Prop} (leads : D.Leads w p R run run')
    (sub : ∀ v, w ≤ v → ∀ a b, R v a b → S v a b) : D.Leads w p S run run' := by
  intro u le st here
  have ends := leads u le st here
  generalize run D.setting st = result, run' D.setting' st = result' at ends
  cases ends with
  | excused excuses => exact .excused excuses
  | ok moves further there related => exact .ok moves further there (sub _ (le.trans further) _ _ related)
  | error moves further there stops => exact .error moves further there stops

theorem bind (lawful : D.Lawful code) {S : D.World → β → β → Prop} {next next' : α → Run β}
    (first : D.Leads w p R run run')
    (rest : ∀ v, w ≤ v → ∀ a b, R v a b → D.Leads v p S (next a) (next' b)) :
    D.Leads w p S (run >>= next) (run' >>= next') := by
  intro u le st here
  have ends := first u le st here
  generalize ran : run D.setting st = result, ran' : run' D.setting' st = result' at ends
  cases ends with
  | excused excuses =>
    rw [Run.bind_error next ran]
    exact .excused excuses
  | error moves further there stops =>
    rw [Run.bind_error next ran, Run.bind_error next' ran']
    exact .error moves further there stops
  | ok moves further there related =>
    rw [Run.bind_ok next ran, Run.bind_ok next' ran']
    have later := rest _ (le.trans further) _ _ related _ le_rfl _ there
    generalize next _ D.setting _ = result, next' _ D.setting' _ = result' at later
    cases later with
    | excused excuses => exact .excused excuses
    | ok moved more final given => exact .ok (lawful.trans moves moved) (further.trans more) final given
    | error moved more final stops => exact .error (lawful.trans moves moved) (further.trans more) final stops

theorem halt (lawful : D.Lawful code) {h : Halt} (stops : D.Stops h) :
    D.Leads w p R (Run.halt h) (Run.halt h) :=
  fun _ _ st here => .error (lawful.refl p st) le_rfl here stops

theorem excused {h : Halt} (excuses : D.Excuses h) (stopped : ∀ st, ∃ last, run D.setting st = .error h last) :
    D.Leads w p R run run' := by
  intro u _ st _
  obtain ⟨last, ran⟩ := stopped st
  rw [ran]
  exact .excused excuses

theorem lift (lawful : D.Lawful code) {result : Except RuntimeFault α}
    (faults : Faults (fun f => D.Stops (.fault f)) result) (holds : ∀ v, w ≤ v → ∀ a, result = .ok a → R v a a) :
    D.Leads w p R (Run.lift result) (Run.lift result) := by
  cases result with
  | ok a => exact pure lawful fun v le => holds v le a rfl
  | error f => exact halt lawful (faults f rfl)

theorem read (lawful : D.Lawful code) {f : Heap → Except RuntimeFault α}
    (faults : ∀ heap, Faults (fun f => D.Stops (.fault f)) (f heap))
    (holds : ∀ v st, w ≤ v → D.Holds v p st → ∀ a, f st.heap = .ok a → R v a a) :
    D.Leads w p R (Run.read f) (Run.read f) := by
  intro u le st here
  unfold Run.read
  cases result : f st.heap with
  | ok a => exact .ok (lawful.refl p st) le_rfl here (holds u st le here a result)
  | error e => exact .error (lawful.refl p st) le_rfl here (faults st.heap e result)

theorem truth (lawful : D.Lawful code) (v : Value) : D.Leads w p (fun _ => Eq) (Run.truth v) (Run.truth v) := by
  intro u le st here
  unfold Run.truth
  rw [lawful.sameDialect]
  exact lift lawful (D.setting.dialect.truth_faults lawful.operand v) (fun _ _ _ _ => rfl) u le st here

theorem empty (lawful : D.Lawful code) :
    D.Leads w p D.Same (do return (← MonadReader.read).empty : Run Value)
      (do return (← MonadReader.read).empty) := by
  intro u le st here
  have same : (do return (← MonadReader.read).empty : Run Value) D.setting' st = .ok D.setting.empty st := by
    rw [← lawful.sameEmpty]
    rfl
  rw [same]
  exact .ok (lawful.refl p st) le_rfl here ⟨rfl, lawful.empty⟩

theorem lookup (lawful : D.Lawful code) (name : String) : D.Leads w p D.Same (Run.lookup name) (Run.lookup name) := by
  intro u le st here
  unfold Run.lookup
  cases found : st.scopes.find? name with
  | some v => exact .ok (lawful.refl p st) le_rfl here ⟨rfl, lawful.lookup here found⟩
  | none => exact .error (lawful.refl p st) le_rfl here (lawful.operand _ rfl rfl)

theorem change (lawful : D.Lawful code)
    (changes : ∀ u st, w ≤ u → D.Holds u p st → ∃ a last made, run D.setting st = .ok a last ∧
      run' D.setting' st = .ok a last ∧ D.Change code u p st last made ∧
      ∀ v, u ≤ v → (∀ b ∈ made, D.Good v b) → R v a a) :
    D.Leads w p R run run' := by
  intro u le st here
  obtain ⟨a, last, made, ran, ran', change, holds⟩ := changes u st le here
  rw [ran, ran']
  obtain ⟨moves, v, further, there, good⟩ := lawful.change here change
  exact .ok moves further there (holds v further good)

theorem allocCopies (lawful : D.Lawful code) {vs : List Value} (good : ∀ v ∈ vs, D.Good w v) :
    D.Leads w p D.Same (Run.allocCopies vs) (Run.allocCopies vs) :=
  change lawful fun _ _ le _ => ⟨_, _, _, rfl, rfl, .copies fun v member => lawful.later le (good v member),
    fun _ _ made => ⟨rfl, made _ List.mem_cons_self⟩⟩

theorem alloc (lawful : D.Lawful code) {vs : List Value} (good : ∀ v ∈ vs, D.Good w v)
    (native : ∃ module name arity, D.Good w (.native module name arity .collect)) :
    D.Leads w p D.Same (Run.alloc vs.toArray) (Run.alloc vs.toArray) := by
  obtain ⟨module, name, arity, callee⟩ := native
  exact change lawful fun _ _ le _ => ⟨_, _, _, rfl, rfl,
    .collect (fun v member => lawful.later le (good v member)) ⟨module, name, arity, lawful.later le callee⟩,
    fun _ _ made => ⟨rfl, made _ List.mem_cons_self⟩⟩

theorem set (lawful : D.Lawful code) {s : Stmt} {name : String} {v : Value} (does : code.Does p s)
    (target : name ∈ s.targets) (good : D.Good w v) :
    D.Leads w p (fun _ _ _ => True) (Run.scopes (Scopes.set name v)) (Run.scopes (Scopes.set name v)) :=
  change lawful fun _ _ le _ => ⟨_, _, _, rfl, rfl, .set does target (lawful.later le good), fun _ _ _ => trivial⟩

theorem assignOrSet (lawful : D.Lawful code) {name : String} {x : Expr} {v : Value}
    (does : code.Does p (.assign name x true)) (good : D.Good w v) :
    D.Leads w p (fun _ _ _ => True) (Run.scopes (Scopes.assignOrSet name v)) (Run.scopes (Scopes.assignOrSet name v)) :=
  change lawful fun _ _ le _ => ⟨_, _, _, rfl, rfl, .assignOrSet does (lawful.later le good), fun _ _ _ => trivial⟩

theorem assign (lawful : D.Lawful code) {name : String} {x : Expr} {v : Value}
    (does : code.Does p (.assign name x false)) (good : D.Good w v) :
    D.Leads w p (fun _ _ _ => True) (Run.assign name v) (Run.assign name v) := by
  intro u le st here
  unfold Run.assign
  cases found : st.scopes.assign? name v with
  | none => exact .error (lawful.refl p st) le_rfl here (lawful.operand _ rfl rfl)
  | some scopes =>
    obtain ⟨moves, t, further, there, -⟩ := lawful.change here (.assign does (lawful.later le good) found)
    exact .ok moves further there trivial

theorem storeCopy (lawful : D.Lawful code) {store : Heap → Value → Heap} {v : Value} (good : D.Good w v)
    (changes : ∀ u st, w ≤ u → v ≠ .absent →
      D.Change code u p st { st with heap := store (st.heap.copy v).1 (st.heap.copy v).2 } []) :
    D.Leads w p (fun _ _ _ => True) (Run.storeCopy store v) (Run.storeCopy store v) := by
  by_cases absent : v = .absent
  · subst absent
    simp only [Run.storeCopy, if_pos]
    exact halt lawful (lawful.absent good)
  · simp only [Run.storeCopy, if_neg absent]
    exact change lawful fun u st le _ => ⟨_, _, _, rfl, rfl, changes u st le absent, fun _ _ _ => trivial⟩

theorem memoize (lawful : D.Lawful code) {on : Bool} (does : code.Does p (.memoize on)) :
    D.Leads w p (fun _ _ _ => True) (Run.memoize on) (Run.memoize on) := by
  intro u le st here
  unfold Run.memoize
  cases cached : st.memo with
  | none => exact .error (lawful.refl p st) le_rfl here (lawful.uncached here cached)
  | some memo =>
    obtain ⟨moves, t, further, there, -⟩ := lawful.change here (.memoize does cached)
    have ran (setting : Setting) : Run.memo (·.enable on) setting st =
        .ok () { st with memo := some (memo.enable on) } := by
      simp only [Run.memo, cached, Option.map_some]
    simp only [Option.isNone_some, Bool.false_eq_true, if_false, ran]
    exact .ok moves further there trivial

theorem perform (lawful : D.Lawful code) {capability : Capability} (offered : D.setting.Offers capability)
    {args : List Value} (good : ∀ a ∈ args, D.Good w a) :
    D.Leads w p D.Same (Run.perform capability args) (Run.perform capability args) := by
  intro u le st here
  have given (a : Value) (member : a ∈ args) : D.Good u a := lawful.later le (good a member)
  cases asked : D.setting.host capability st.heap args st.console.called with
  | mk after result =>
    obtain ⟨heap, console⟩ := after
    rw [Run.perform_of_asked asked, Run.perform_of_asked (lawful.sameHost ▸ asked)]
    cases result with
    | ok v =>
      obtain ⟨moves, t, further, there, made⟩ := lawful.change here (.answer offered given asked)
      exact .ok moves further there ⟨rfl, made v List.mem_cons_self⟩
    | error f =>
      obtain ⟨moves, t, further, there, -⟩ := lawful.change here (.refusal offered given asked)
      exact .error moves further there (lawful.refused here given asked)

theorem framed (lawful : D.Lawful code) {q : D.Place} {calls : Nat} {bindings : List (String × Value)}
    (opens : (∃ s, code.Does p s ∧ q = code.within p s ∧ calls = 0) ∨ q = D.body p ∧ calls = 1)
    (good : ∀ binding ∈ bindings, D.Good w binding.2) (part : D.Leads w q R run run') :
    D.Leads w p R (Run.framed calls bindings run) (Run.framed calls bindings run') := by
  intro u le st here
  obtain ⟨entered, left⟩ := lawful.frame opens here fun binding member => lawful.later le (good binding member)
  have ends := part u le _ entered
  unfold Run.framed
  generalize run D.setting (st.enter calls bindings) = result, run' D.setting' (st.enter calls bindings) = result' at ends
  cases ends with
  | excused excuses => exact .excused excuses
  | ok moves further there related =>
    obtain ⟨behind, moved⟩ := left _ _ further there moves
    exact .ok moved further behind related
  | error moves further there stops =>
    obtain ⟨behind, moved⟩ := left _ _ further there moves
    exact .error moved further behind stops

end Leads

theorem same_values {vs vs' : List Value} (values : List.Forall₂ (D.Same w) vs vs') :
    vs' = vs ∧ ∀ v ∈ vs, D.Good w v := by
  induction values with
  | nil => exact ⟨rfl, List.forall_mem_nil _⟩
  | cons first _ ih =>
    obtain ⟨rfl, good⟩ := first
    obtain ⟨rfl, each⟩ := ih
    exact ⟨rfl, List.forall_mem_cons.2 ⟨good, each⟩⟩

theorem values_of_good {vs : List Value} (good : ∀ v ∈ vs, D.Good w v) :
    List.Forall₂ (D.Same w) vs vs :=
  List.forall₂_same.2 fun v member => ⟨rfl, good v member⟩

theorem Valued.from_heap (valued : D.Valued code) {st : State} (here : D.Holds w p st) {v : Value}
    (origin : v.Plain ∨ ∃ cell, v ∈ st.heap.items cell) : D.Good w v := by
  rcases origin with plain | ⟨cell, member⟩
  · exact valued.plain plain
  · exact valued.item here member

theorem Lawful.composes (lawful : D.Lawful code) : (D.correspondence code).Composes where
  pure := .pure lawful
  bind := .bind lawful
  mono := .mono
  bind_defines := .bind lawful
  defines_bind := .bind lawful
  later le values := ⟨values.1, lawful.later le values.2⟩

theorem Lawful.observes (lawful : D.Lawful code) : (D.correspondence code).Observes where
  literal reads := ⟨rfl, lawful.literal reads⟩
  number x := ⟨rfl, lawful.plain trivial⟩
  lookup _ := .lookup lawful _
  empty := .empty lawful
  truth := by
    rintro w p a _ ⟨rfl, -⟩
    exact .truth lawful a
  operation := by
    rintro w p x f a _ b _ here reads ⟨rfl, -⟩ ⟨rfl, -⟩
    exact .read lawful (fun heap => lawful.operator here reads heap a b)
      fun v st _ there c result => ⟨rfl, lawful.from_heap there (x.operation_from here result)⟩
  conversion := by
    rintro w p x f a _ here reads ⟨rfl, -⟩
    exact .lift lawful (Expr.conversion_faults lawful.operand here a)
      fun v _ c result => ⟨rfl, lawful.plain (x.conversion_plain here result)⟩
  format := by
    rintro w p template args vs _ reads values
    obtain ⟨rfl, -⟩ := same_values values
    exact .read lawful (fun heap => MiniRust.format_faults lawful.operand template _)
      fun v st _ _ c result => ⟨rfl, lawful.plain (MiniRust.format_scalar result).plain⟩
  asArray := by
    rintro w p a _ ⟨rfl, good⟩
    refine .lift lawful (a.asArray_faults lawful.operand) fun v le cell result => ⟨rfl, ?_⟩
    cases a with
    | array other =>
      cases result
      exact lawful.later le good
    | _ => cases result
  position := by
    rintro w p a _ cell _ ⟨same, -⟩ ⟨rfl, -⟩
    cases same
    exact .read lawful (fun heap => Lumen.position_faults lawful.operand a _) fun _ _ _ _ _ _ => rfl
  course := by
    rintro w p a _ ⟨rfl, -⟩
    refine .read lawful (fun heap => Lumen.course_faults lawful.operand heap a) fun v st _ there c result => ?_
    cases c with
    | steps start stop => exact .steps start stop
    | items vs =>
      exact .items (values_of_good fun item member => lawful.from_heap there (Lumen.course_from result item member))

theorem Lawful.changes (lawful : D.Lawful code) : (D.correspondence code).Changes where
  allocCopies := by
    rintro w p vs _ values
    obtain ⟨rfl, good⟩ := same_values values
    exact .allocCopies lawful good
  define := by
    rintro w p name x a _ does ⟨rfl, good⟩
    refine .bind lawful (.set lawful does List.mem_cons_self good) fun _ _ _ _ _ => .pure lawful fun _ _ => ?_
    exact .normal
  assignOrSet := by
    rintro w p name x a _ does ⟨rfl, good⟩
    exact .assignOrSet lawful does good
  assign := by
    rintro w p name x a _ does ⟨rfl, good⟩
    exact .assign lawful does good
  declare does := .set lawful does List.mem_cons_self (lawful.plain trivial)
  scope does _ part := by
    rw [Run.inScope_id, Run.inScope_id]
    exact Leads.framed lawful (Or.inl ⟨_, does, rfl, rfl⟩) (List.forall_mem_nil _) part
  round := by
    rintro α w p name items body R part part' a _ does ⟨rfl, good⟩ part
    rw [Run.inScope_set, Run.inScope_set]
    exact Leads.framed lawful (Or.inl ⟨_, does, rfl, rfl⟩) (List.forall_mem_singleton.2 good) part

theorem Lawful.ends (lawful : D.Lawful code) : (D.correspondence code).Ends where
  fuel_pred := Nat.succ.inj
  exhausted _ := .halt lawful lawful.fuel
  exhausted_first fueled := absurd fueled (Nat.zero_ne_add_one _)
  exhausted_second fueled := absurd fueled (Nat.add_one_ne_zero _)

theorem Lawful.closed (lawful : D.Lawful code) (contains : (D.correspondence code).Contains) :
    (D.correspondence code).Closed where
  toComposes := lawful.composes
  toContains := contains
  toObserves := lawful.observes
  toChanges := lawful.changes
  toEnds := lawful.ends

theorem Leads.of_ok (leads : D.Leads w p R run run') {st last : State} {a : α}
    (here : D.Holds w p st) (ran : run D.setting st = .ok a last) :
    ∃ b v, w ≤ v ∧ D.Moves p st last ∧ D.Holds v p last ∧ R v a b := by
  have ends := leads w le_rfl st here
  rw [ran] at ends
  generalize run' D.setting' st = result' at ends
  cases ends with
  | ok moves le there related => exact ⟨_, _, le, moves, there, related⟩

theorem Leads.of_error (leads : D.Leads w p R run run') (strict : ∀ h, ¬D.Excuses h) {st last : State} {h : Halt}
    (here : D.Holds w p st) (ran : run D.setting st = .error h last) :
    ∃ v, w ≤ v ∧ D.Moves p st last ∧ D.Holds v p last ∧ D.Stops h := by
  have ends := leads w le_rfl st here
  rw [ran] at ends
  generalize run' D.setting' st = result' at ends
  cases ends with
  | excused excuses => exact absurd excuses (strict h)
  | error moves le there stops => exact ⟨_, le, moves, there, stops⟩

theorem Leads.after (leads : D.Leads w p R run run') (strict : ∀ h, ¬D.Excuses h) {st : State} (here : D.Holds w p st) :
    D.Moves p st (run.after D.setting st) ∧ ∃ v, w ≤ v ∧ D.Holds v p (run.after D.setting st) := by
  unfold Run.after
  cases ran : run D.setting st with
  | ok a last =>
    obtain ⟨_, v, le, moves, there, -⟩ := leads.of_ok here ran
    exact ⟨moves, v, le, there⟩
  | error h last =>
    obtain ⟨v, le, moves, there, -⟩ := leads.of_error strict here ran
    exact ⟨moves, v, le, there⟩

theorem Leads.follows (leads : D.Leads w p R run run') (same : ∀ v a b, R v a b → b = a) {st : State}
    (here : D.Holds w p st) :
    run' D.setting' st = run D.setting st ∨ ∃ h last, run D.setting st = .error h last ∧ D.Excuses h := by
  have ends := leads w le_rfl st here
  generalize run D.setting st = result, run' D.setting' st = result' at ends
  cases ends with
  | excused excuses => exact Or.inr ⟨_, _, rfl, excuses⟩
  | ok moves le there related =>
    rw [same _ _ _ related]
    exact Or.inl rfl
  | error moves le there stops => exact Or.inl rfl

theorem Ends.around (lawful : D.Lawful code) {st : State} {result result' : EStateM.Result Halt State α}
    (ends : D.Ends w (D.call p) R st result result') : D.Ends w p R st result result' := by
  cases ends with
  | excused excuses => exact .excused excuses
  | ok moves le there related => exact .ok (lawful.called moves) le (lawful.call.1 there) related
  | error moves le there stops => exact .error (lawful.called moves) le (lawful.call.1 there) stops

namespace Leads

variable {ev ev' : Evaluators} {args : List Value} {label : Nat} {f : Function}

theorem store (lawful : D.Lawful code) {run run' : Run Value} {st : State} {memo : Memo} {key : String}
    (here : D.Holds w p st) (cached : st.memo = some memo) (on : memo.enabled = true)
    (new : memo.find? label key = none) (active : D.Leads w (D.call p) D.Same run run') :
    D.Ends w p D.Same st
      ((do let v ← run; Run.memo (·.store label key v); Pure.pure v : Run Value) D.setting st)
      ((do let v ← run'; Run.memo (·.store label key v); Pure.pure v : Run Value) D.setting' st) := by
  have ends := active w le_rfl st (lawful.call.2 here)
  generalize ran : run D.setting st = result, ran' : run' D.setting' st = result' at ends
  cases ends with
  | excused excuses =>
    rw [Run.bind_error _ ran]
    exact .excused excuses
  | error moves le there stops =>
    rw [Run.bind_error _ ran, Run.bind_error _ ran']
    exact (Ends.error moves le there stops).around lawful
  | ok moves le there related =>
    obtain ⟨rfl, good⟩ := related
    rw [Run.bind_ok _ ran, Run.bind_ok _ ran']
    obtain ⟨final, moved⟩ := lawful.store cached on new there moves good
    exact (Ends.ok moved le final ⟨rfl, good⟩).around lawful

theorem activate (lawful : D.Lawful code) (good : ∀ a ∈ args, D.Good w a)
    (body : D.Leads w (D.body p) D.Same (ev.body f.name f.body) (ev'.body f.name f.body)) :
    D.Leads w p D.Same (ev.activate f args) (ev'.activate f args) := by
  rw [Evaluators.activate_eq, Evaluators.activate_eq]
  exact framed lawful (Or.inr ⟨rfl, rfl⟩) (fun binding member => good _ (List.of_mem_zip member).2) body

theorem callFunction (lawful : D.Lawful code) (good : ∀ a ∈ args, D.Good w a)
    (body : ∀ u st, w ≤ u → D.Holds u p st → D.setting.Enters st.calls →
      D.Leads u (D.body (D.call p)) D.Same (ev.body f.name f.body) (ev'.body f.name f.body)) :
    D.Leads w p D.Same (ev.callFunction label f args) (ev'.callFunction label f args) := by
  intro u le st here
  have given (a : Value) (member : a ∈ args) : D.Good u a := lawful.later le (good a member)
  unfold Evaluators.callFunction
  by_cases arity : args.length ≠ f.params.length
  · rw [if_pos arity, if_pos arity]
    exact halt lawful (lawful.operand _ rfl rfl) u le_rfl st here
  rw [if_neg arity, if_neg arity]
  by_cases deep : 0 < D.setting.maxCalls ∧ D.setting.maxCalls ≤ st.calls
  · rw [if_pos deep]
    rcases lawful.sameBound with equal | ⟨excuses, -⟩
    · rw [equal, if_pos deep]
      exact halt lawful (lawful.operand _ rfl rfl) u le_rfl st here
    · exact .excused (excuses f.name)
  have shallow : D.setting'.Enters st.calls := by
    rcases lawful.sameBound with equal | ⟨-, wider⟩
    · rwa [Setting.Enters, equal]
    · exact wider st.calls deep
  rw [if_neg deep, if_neg shallow]
  have active : D.Leads u (D.call p) D.Same (ev.activate f args) (ev'.activate f args) :=
    activate lawful given (body u st le here deep)
  have plain := (active u le_rfl st (lawful.call.2 here)).around lawful
  cases cached : st.memo with
  | none => exact plain
  | some memo =>
    dsimp only
    cases on : memo.enabled with
    | false => exact plain
    | true =>
      simp only [Bool.not_true, Bool.false_eq_true, if_false]
      cases found : memo.find? label (Memo.key st.heap args) with
      | some v =>
        obtain ⟨moves, t, further, there, made⟩ := lawful.change here (.hit cached on found)
        exact .ok moves further there ⟨rfl, made v List.mem_cons_self⟩
      | none => exact store lawful here cached on found active

theorem invoke (lawful : D.Lawful code) {callee : Value} (function : D.Good w callee) (good : ∀ a ∈ args, D.Good w a)
    (bodies : ∀ (label : Nat) f, D.setting.code[label]? = some f → ∀ u st, w ≤ u → D.Holds u p st →
      D.setting.Enters st.calls →
      D.Leads u (D.body (D.call p)) D.Same (ev.body f.name f.body) (ev'.body f.name f.body)) :
    D.Leads w p D.Same (ev.invoke callee args) (ev'.invoke callee args) := by
  have refused : D.Leads w p D.Same (Run.fault (.cannotCall callee.kind)) (Run.fault (.cannotCall callee.kind)) :=
    halt lawful (lawful.operand _ rfl rfl)
  cases callee with
  | function label name arity =>
    unfold Evaluators.invoke
    intro u le st here
    dsimp only
    rcases lawful.sameCode label with same | ⟨unknown, excuses⟩
    · rw [same]
      cases known : D.setting.code[label]? with
      | none => exact refused u le st here
      | some f => exact callFunction lawful good (bodies label f known) u le st here
    · rw [unknown]
      exact .excused (excuses _)
  | native module name arity action =>
    unfold Evaluators.invoke
    intro u le st here
    dsimp only
    by_cases wrong : 0 ≤ arity ∧ (args.length : Int) ≠ arity
    · rw [if_pos wrong, if_pos wrong]
      exact halt lawful (lawful.operand _ rfl rfl) u le st here
    · rw [if_neg wrong, if_neg wrong]
      cases action with
      | collect => exact alloc lawful good ⟨module, name, arity, function⟩ u le st here
      | length =>
        refine read lawful (fun heap => Lumen.length_faults lawful.operand heap _) (fun v st _ _ a result => ?_) u le st here
        exact ⟨rfl, lawful.plain (Lumen.length_plain result)⟩
  | _ => exact refused

theorem hostVia (lawful : D.Lawful code) {perform perform' : Key → Capability → List Value → Run Value} {xs : List Expr}
    {keys : List Key} (same : D.setting'.capabilities.bind (·.first? keys) = D.setting.capabilities.bind (·.first? keys))
    (all : D.Leads w p (fun v => List.Forall₂ (D.Same v)) (ev.all xs) (ev'.all xs))
    (performs : ∀ key capability v vs, D.setting.capabilities.bind (·.first? keys) = some (key, capability) →
      (∀ a ∈ vs, D.Good v a) → D.Leads v p D.Same (perform key capability vs) (perform' key capability vs))
    (selector : String) :
    D.Leads w p D.Same (ev.hostVia perform selector keys xs) (ev'.hostVia perform' selector keys xs) := by
  intro u le st here
  unfold Evaluators.hostVia
  rw [same]
  cases found : D.setting.capabilities.bind (·.first? keys) with
  | none => exact halt lawful (lawful.operand _ rfl rfl) u le st here
  | some entry =>
    refine bind lawful all (fun v _ vs vs' values => ?_) u le st here
    obtain ⟨rfl, good⟩ := same_values values
    exact performs entry.1 entry.2 v _ found good

theorem host (lawful : D.Lawful code) {xs : List Expr} {keys : List Key}
    (same : D.setting'.capabilities.bind (·.first? keys) = D.setting.capabilities.bind (·.first? keys))
    (all : D.Leads w p (fun v => List.Forall₂ (D.Same v)) (ev.all xs) (ev'.all xs)) (selector : String) :
    D.Leads w p D.Same (ev.host selector keys xs) (ev'.host selector keys xs) := by
  rw [← Evaluators.hostVia_self, ← Evaluators.hostVia_self]
  exact hostVia lawful same all (fun key _ _ _ found => perform lawful ⟨keys, key, found⟩) selector

end Leads

end Discipline

/-- The evaluators that break off where a part is to be evaluated in a state of
some kind. What a run has come to there is the state it is broken off in. -/
def interrupted (stop : State → Bool) : Nat → Evaluators
  | 0 => evaluators 0
  | fuel + 1 =>
    { expr := fun x setting st =>
        if stop st then .error .outOfFuel st else (interrupted stop fuel).evalExpr x setting st
      stmt := fun s setting st =>
        if stop st then .error .outOfFuel st else (interrupted stop fuel).evalStmt fuel s setting st }

theorem interrupted_never (fuel : Nat) : interrupted (fun _ => false) fuel = evaluators fuel := by
  induction fuel with
  | zero => rfl
  | succ fuel ih =>
    unfold interrupted evaluators
    rw [ih]
    rfl

namespace Discipline

variable {D : Discipline} {code : D.Code} {α : Type} {w : D.World} {p : D.Place} {R : D.World → α → α → Prop}
  {run run' : Run α}

theorem Leads.unless (lawful : D.Lawful code) (stop : State → Bool) (leads : D.Leads w p R run run') :
    D.Leads w p R (fun setting st => if stop st then .error .outOfFuel st else run setting st)
      (fun setting st => if stop st then .error .outOfFuel st else run' setting st) := by
  intro u le st here
  dsimp only
  cases stop st with
  | true => exact .error (lawful.refl p st) le_rfl here lawful.fuel
  | false => exact leads u le st here

section

variable {ev ev' : Evaluators} {fuel : Nat}

/-- The functions of the program may stand where they are called. -/
def Functions (code : D.Code) : Prop :=
  ∀ (label : Nat) f, D.setting.code[label]? = some f → ∀ p, (D.correspondence code).Body (D.body (D.call p)) f.body

theorem functions_all : Functions (D := D) {} :=
  fun _ _ _ _ => body_of_all fun _ _ => trivial

theorem Lawful.strays (lawful : D.Lawful code) : (D.correspondence code).Strays (D.body p) :=
  fun sent _ _ _ _ _ stray => .halt lawful (lawful.stray stray sent)

theorem Lawful.exprVia (lawful : D.Lawful code) (contains : (D.correspondence code).Contains)
    (functions : Functions code) (agrees : (D.correspondence code).Agrees ev ev') {x : Expr} (reads : code.Reads p x)
    {host host' : String → List Key → List Expr → Run Value}
    (hosts : ∀ selector keys args, x = .hostCall selector keys args →
      D.Leads w p (fun v => List.Forall₂ (D.Same v)) (ev.all args) (ev'.all args) →
      D.Leads w p D.Same (host selector keys args) (host' selector keys args)) :
    D.Leads w p D.Same (ev.exprVia ev.invoke host x) (ev'.exprVia ev'.invoke host' x) := by
  have closed := lawful.closed contains
  refine agrees.exprVia (w := w) closed ?invokes ?hosts reads
  case invokes =>
    rintro v f _ as bs ⟨rfl, function⟩ values
    obtain ⟨rfl, good⟩ := same_values values
    exact Leads.invoke lawful function good fun label f known u st _ _ _ =>
      agrees.functionBody closed lawful.strays f.name (functions label f known p)
  case hosts =>
    rintro selector keys args rfl
    exact hosts selector keys args rfl (agrees.all closed (contains.parts reads))

theorem Lawful.expr (lawful : D.Lawful code) (contains : (D.correspondence code).Contains)
    (functions : Functions code) (same : D.setting'.capabilities = D.setting.capabilities)
    (agrees : (D.correspondence code).Agrees ev ev') {x : Expr} (reads : code.Reads p x) :
    D.Leads w p D.Same (ev.evalExpr x) (ev'.evalExpr x) := by
  rw [← Evaluators.exprVia_self, ← Evaluators.exprVia_self]
  exact lawful.exprVia contains functions agrees reads fun selector keys args _ all =>
    Leads.host lawful (by rw [same]) all selector

theorem Lawful.stores (lawful : D.Lawful code) :
    Correspondence.Agrees.Stores (D.correspondence code) p (fun _ => id) (fun _ => id) := by
  rintro w cell _ a _ ⟨same, known⟩ ⟨rfl, good⟩
  cases same
  refine ⟨fun i => ?_, ?_⟩
  · exact Leads.storeCopy lawful good fun u st le => .replace (lawful.later le known) (lawful.later le good)
  · exact Leads.storeCopy lawful good fun u st le => .append (lawful.later le known) (lawful.later le good)

theorem Lawful.stmt (lawful : D.Lawful code) (contains : (D.correspondence code).Contains)
    (agrees : (D.correspondence code).Agrees ev ev') {s : Stmt} (does : code.Does p s) :
    (D.correspondence code).Runs w p s ((D.correspondence code).Controls (code.Signals p)) (ev.evalStmt fuel s)
      (ev'.evalStmt fuel s) := by
  rw [← Evaluators.stmtVia_self, ← Evaluators.stmtVia_self]
  refine agrees.stmtVia (lawful.closed contains) rfl lawful.stores ?_ does
  rintro v on rfl
  exact Leads.memoize lawful does

theorem runs_iff {C : (D.correspondence code).World → α → α → Prop} {s : Stmt} :
    (D.correspondence code).Runs w p s C run run' ↔ D.Leads w p C run run' := by
  cases s <;> rfl

theorem Lawful.exhausted (lawful : D.Lawful code) :
    (D.correspondence code).Agrees (ScriptKernel.evaluators 0) (ScriptKernel.evaluators 0) where
  expr _ _ _ _ := .halt lawful lawful.fuel
  stmt _ _ _ _ := runs_iff.2 (.halt lawful lawful.fuel)

theorem Lawful.interrupted (lawful : D.Lawful code) (contains : (D.correspondence code).Contains)
    (functions : Functions code) (same : D.setting'.capabilities = D.setting.capabilities) (stop : State → Bool)
    (fuel : Nat) :
    (D.correspondence code).Agrees (ScriptKernel.interrupted stop fuel) (ScriptKernel.interrupted stop fuel) := by
  induction fuel with
  | zero => exact lawful.exhausted
  | succ fuel ih =>
    exact ⟨fun w p x reads => .unless lawful stop (lawful.expr contains functions same ih reads),
      fun w p s does => runs_iff.2 (.unless lawful stop (runs_iff.1 (lawful.stmt contains ih does)))⟩

theorem Lawful.evaluators (lawful : D.Lawful code) (contains : (D.correspondence code).Contains)
    (functions : Functions code) (same : D.setting'.capabilities = D.setting.capabilities) (fuel : Nat) :
    (D.correspondence code).Agrees (ScriptKernel.evaluators fuel) (ScriptKernel.evaluators fuel) := by
  rw [← interrupted_never]
  exact lawful.interrupted contains functions same _ fuel

theorem Lawful.program (lawful : D.Lawful code) (contains : (D.correspondence code).Contains)
    (agrees : (D.correspondence code).Agrees ev ev')
    (stops : code.Signals p → ∀ f : RuntimeFault, f.isStray → D.Stops (.fault f)) (policy : StrayPolicy)
    {program : List Stmt} (stand : (D.correspondence code).Body p program) :
    D.Leads w p D.Same (runTop ev policy program) (runTop ev' policy program) :=
  agrees.program (lawful.closed contains) (fun sent _ _ _ _ _ stray => .halt lawful (stops sent _ stray)) policy stand

end

end Discipline

end ScriptKernel
