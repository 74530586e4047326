import ScriptKernel.Proofs.Machine.SideBySide
import ScriptKernel.Proofs.Value.Trees

/-!
Careful runs. That code treats its arrays well is put as an experiment: a run
that would stop, as if it were out of fuel, at the first change of an array that
the code at work has not made itself or that is to stay as it is, at the first
call that gives back an array from before that is not to stay as it is or,
natively, one that holds its arguments themselves, at the first call with an
argument that may not be told from another one by its debug form, and where the
cache is switched on. Where nothing stops it, the careful run is the run itself.
-/

namespace ScriptKernel

namespace Heap

variable {heap : Heap} {leaf : Value → Bool} {node : Nat → Bool} {depth : Nat} {v : Value}

def allAt (heap : Heap) (leaf : Value → Bool) (node : Nat → Bool) : Nat → Value → Bool
  | 0, .array _ => false
  | depth + 1, .array cell => node cell && (heap.items cell).all (allAt heap leaf node depth)
  | _, v => leaf v

def all (heap : Heap) (leaf : Value → Bool) (node : Nat → Bool) (v : Value) : Bool :=
  heap.allAt leaf node heap.walkDepth v

theorem madeOf_of_allAt (allocated : ∀ outer inner, heap.Holds outer inner → inner < heap.cells.size)
    (known : ∀ cell, v = .array cell → cell < heap.cells.size) (passes : heap.allAt leaf node depth v) :
    heap.MadeOf (leaf · = true) v := by
  induction depth generalizing v with
  | zero =>
    cases v with
    | array cell => cases passes
    | _ => exact .leaf nofun passes
  | succ depth ih =>
    cases v with
    | array cell =>
      rw [allAt, Bool.and_eq_true, Array.all_eq_true_iff_forall_mem] at passes
      have each : ∀ v ∈ (heap.items cell).toList, heap.MadeOf (leaf · = true) v := by
        intro v member
        rw [Array.mem_toList_iff] at member
        refine ih (fun inner same => allocated cell inner ?_) (passes.2 v member)
        rw [Holds, ← same]
        exact member
      obtain ⟨ts, shown, all⟩ := exists_showAll_of_madeOf each
      exact ⟨.node ts, .node (known cell rfl) shown, all⟩
    | _ => exact .leaf nofun passes

end Heap

/-- What a careful run goes by. -/
structure Care where
  /-- How many calls are active where an array is made. -/
  made : Nat → Nat
  /-- Whether an array is to stay as it is once it has these elements. -/
  stays : Nat → Array Value → Bool
  /-- Whether a value other than an array is told from all others. -/
  tells : Setting → Value → Bool

namespace Care

variable (care : Care)

/-- The code at work, which was entered with so many arrays, has made the array
itself, and may change it. -/
def Owns (base : Nat) (st : State) (cell : Nat) : Prop :=
  base ≤ cell ∧ care.made cell ≤ st.calls ∧ care.stays cell (st.heap.items cell) = false

instance (base : Nat) (st : State) (cell : Nat) : Decidable (care.Owns base st cell) :=
  inferInstanceAs (Decidable (_ ∧ _))

/-- The array is to stay as it is, and so are those in it. -/
def Rests (heap : Heap) (cell : Nat) : Prop :=
  ∃ depth, heap.allAt (fun _ => true) (fun inner => care.stays inner (heap.items inner)) depth (.array cell)

/-- The arrays that a call has made are its own, and it gives back none but
these and some that are to stay as they are. -/
def Returns (st last : State) (v : Value) : Prop :=
  (∀ i < last.heap.cells.size - st.heap.cells.size, st.calls < care.made (st.heap.cells.size + i)) ∧
    match v with
    | .array cell => st.heap.cells.size ≤ cell ∨
        last.heap.all (fun _ => true) (fun inner => care.stays inner (last.heap.items inner)) (.array cell)
    | _ => True

instance (st last : State) (v : Value) : Decidable (care.Returns st last v) := by
  unfold Returns
  cases v <;> infer_instance

def mind (base cell : Nat) : Run Unit := fun _ st =>
  if care.Owns base st cell then .ok () st else .error .outOfFuel st

def review (st : State) : EStateM.Result Halt State Value → EStateM.Result Halt State Value
  | .ok v last => if care.Returns st last v then .ok v last else .error .outOfFuel last
  | .error h last => .error h last

def invoke (inside : Nat → Evaluators) (callee : Value) (args : List Value) : Run Value := fun setting st =>
  match callee with
  | .function .. =>
    if args.all (st.heap.all (care.tells setting) fun _ => true) then
      care.review st ((inside st.heap.cells.size).invoke callee args setting st)
    else .error .outOfFuel st
  | .native _ _ _ .collect => .error .outOfFuel st
  | _ => (inside st.heap.cells.size).invoke callee args setting st

def store (base cell : Nat) (stored : Run Unit) : Run Unit := do
  care.mind base cell
  stored

/-- The cache may be switched off, but not on. -/
def memoize (on : Bool) : Run Unit :=
  if on then Run.halt .outOfFuel else Run.memoize on

end Care

/-- The evaluators of a careful run, for code that is entered with so many
arrays. -/
def careful (care : Care) : Nat → Nat → Evaluators
  | 0 => fun _ => evaluators 0
  | fuel + 1 => fun base =>
    let here := careful care fuel base
    { expr := fun x => here.exprVia (care.invoke (careful care fuel)) here.host x
      stmt := fun s => here.stmtVia (care.store base) Care.memoize fuel s }

namespace Care

variable {care : Care} {heap : Heap} {outer inner cell : Nat}

theorem Rests.stays (rests : care.Rests heap cell) : care.stays cell (heap.items cell) := by
  obtain ⟨depth, passes⟩ := rests
  cases depth with
  | zero => cases passes
  | succ depth => exact (Bool.and_eq_true_iff.1 passes).1

theorem Rests.within (rests : care.Rests heap outer) (holds : heap.Holds outer inner) : care.Rests heap inner := by
  obtain ⟨depth, passes⟩ := rests
  cases depth with
  | zero => cases passes
  | succ depth =>
    rw [Heap.allAt, Bool.and_eq_true, Array.all_eq_true_iff_forall_mem] at passes
    exact ⟨depth, passes.2 _ holds⟩

theorem Returns.array {st last : State} (returns : care.Returns st last (.array cell)) :
    st.heap.cells.size ≤ cell ∨ care.Rests last.heap cell :=
  returns.2.imp_right fun passes => ⟨_, passes⟩

theorem Returns.made {st last : State} {v : Value} (returns : care.Returns st last v)
    (above : st.heap.cells.size ≤ cell) (below : cell < last.heap.cells.size) : st.calls < care.made cell := by
  have made := returns.1 (cell - st.heap.cells.size) (Nat.sub_lt_sub_right above below)
  rwa [Nat.add_sub_cancel' above] at made

end Care

/-- A careful run beside the run itself, which is excused when it stops. -/
abbrev besides (setting : Setting) : Discipline :=
  beside setting setting (· = .outOfFuel)

namespace Care

variable {care : Care} {setting : Setting} {inside : Nat → Evaluators} {ev : Evaluators}

theorem fair (setting : Setting) : (besides setting).Fair :=
  .of_same rfl

theorem same_of_leads {run run' : Run Value} (leads : (besides setting).Leads () () (besides setting).Same run run')
    (st : State) : run setting st = run' setting st ∨ ∃ last, run setting st = .error .outOfFuel last := by
  rcases leads.follows (fun _ _ _ values => values.1.symm) trivial with same | ⟨h, last, ran, rfl⟩
  · exact Or.inl (Eq.symm same)
  · exact Or.inr ⟨last, ran⟩

theorem mind_leads (care : Care) (base cell : Nat) :
    (besides setting).Leads () () (fun _ _ _ => True) (care.mind base cell) (pure ()) := by
  intro u le st here
  unfold mind
  split
  · exact .ok trivial le_rfl trivial trivial
  · exact .excused rfl

theorem store_leads (base cell : Nat) {stored stored' : Run Unit}
    (leads : (besides setting).Leads () () (fun _ _ _ => True) stored stored') :
    (besides setting).Leads () () (fun _ _ _ => True) (care.store base cell stored) stored' := by
  have minded := Discipline.Leads.bind (Beside.lawful (fair setting)) (mind_leads care base cell) fun _ _ _ _ _ => leads
  rwa [pure_bind] at minded

theorem memoize_leads (on : Bool) :
    (besides setting).Leads () () (fun _ _ _ => True) (Care.memoize on) (Run.memoize on) := by
  cases on with
  | true => exact .excused rfl fun st => ⟨st, rfl⟩
  | false => exact .memoize (Beside.lawful (fair setting)) trivial

theorem invoke_leads (agrees : ∀ base, ((besides setting).correspondence {}).Agrees (inside base) ev) (callee : Value)
    (args : List Value) :
    (besides setting).Leads () () (besides setting).Same (care.invoke inside callee args) (ev.invoke callee args) := by
  intro u le st here
  have law := Beside.lawful (fair setting)
  have plain (base : Nat) :
      (besides setting).Leads () () (besides setting).Same ((inside base).invoke callee args) (ev.invoke callee args) :=
    .invoke law trivial (fun _ _ => trivial) fun label f _ _ _ _ _ _ =>
      (agrees base).functionBody (Beside.closed (fair setting)) law.strays f.name (Beside.body f.body)
  have ends := plain st.heap.cells.size u le st here
  unfold invoke
  cases callee with
  | function label name arity =>
    dsimp only
    split
    · generalize (inside st.heap.cells.size).invoke _ args _ st = result, ev.invoke _ args _ st = result' at ends
      cases ends with
      | excused excuses => exact .excused excuses
      | error moves le there stops => exact .error moves le there stops
      | ok moves le there related =>
        rw [review]
        split
        · exact .ok moves le there related
        · exact .excused rfl
    · exact .excused rfl
  | native module name arity action =>
    cases action with
    | collect => exact .excused rfl
    | length => exact ends
  | _ => exact ends

end Care

theorem careful_agree (care : Care) (setting : Setting) (fuel base : Nat) :
    ((besides setting).correspondence {}).Agrees (careful care fuel base) (evaluators fuel) := by
  have law := Beside.lawful (Care.fair setting)
  have closed := Beside.closed (Care.fair setting)
  induction fuel generalizing base with
  | zero => exact law.exhausted
  | succ fuel ih =>
    refine ⟨fun _ _ x reads => ?_, fun _ _ s does => ?_⟩
    · change (besides setting).Leads _ _ _ _ ((evaluators fuel).evalExpr x)
      rw [← Evaluators.exprVia_self]
      refine (ih base).exprVia closed ?invokes ?hosts reads
      case invokes =>
        rintro v f _ as bs ⟨rfl, -⟩ values
        obtain ⟨rfl, -⟩ := Discipline.same_values values
        exact Care.invoke_leads ih f bs
      case hosts =>
        rintro selector keys args rfl
        exact .host law rfl ((ih base).all closed fun _ _ => trivial) selector
    · change ((besides setting).correspondence {}).Runs _ _ s _ _ ((evaluators fuel).evalStmt fuel s)
      rw [← Evaluators.stmtVia_self]
      refine (ih base).stmtVia closed rfl (fun w cell cell' a a' cells values => ?stores) ?switches does
      case stores =>
        have stores := law.stores (p := ()) w cell cell' a a' cells values
        exact ⟨fun i => Care.store_leads base cell (stores.1 i), Care.store_leads base cell stores.2⟩
      case switches =>
        rintro _ on -
        exact Care.memoize_leads on

end ScriptKernel
