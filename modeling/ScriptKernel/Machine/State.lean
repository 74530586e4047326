import ScriptKernel.Capability.Registry
import ScriptKernel.Machine.Memo
import ScriptKernel.Machine.Scopes
import ScriptKernel.Program.Basic

/-!
The machine that runs programs: what stays the same during a run, what
changes, and the outcomes of a step.
-/

namespace ScriptKernel

/-- What a run takes from its host. -/
structure Setting where
  dialect : Dialect
  /-- The declared functions by label. -/
  code : Array Function := #[]
  /-- No registry at all knows no capability. -/
  capabilities : Option Registry := none
  host : Host := .usual {}
  /-- What a function without a result returns. -/
  empty : Value
  /-- The bound on active calls; none when not positive. -/
  maxCalls : Int := 2000

structure State where
  scopes : Scopes := {}
  heap : Heap := {}
  /-- Without a cache no results are kept. -/
  memo : Option Memo := some {}
  /-- The number of active calls of declared functions. -/
  calls : Nat := 0
  console : Console := {}

/-- Why a run stops early. -/
inductive Halt where
  | fault (f : RuntimeFault)
  /-- A host left out a value, or a cache, that the program needs. -/
  | missing
  | outOfFuel
deriving DecidableEq

def Halt.render : Halt → String
  | .fault f => f.render
  | .missing => "missing value"
  | .outOfFuel => "out of fuel"

/-- A step of a run. One that stops early keeps the state it reached. -/
abbrev Run (α : Type) := ReaderT Setting (EStateM Halt State) α

inductive Control where
  | normal
  | breaking
  | continuing
  | returning (v : Value)
deriving DecidableEq

def Control.flow : Control → Flow
  | normal => .normal
  | breaking => .breaking
  | continuing => .continuing
  | returning _ => .returning

namespace Run

def halt {α : Type} (h : Halt) : Run α := fun _ st => .error h st

def fault {α : Type} (f : RuntimeFault) : Run α := halt (.fault f)

def lift {α : Type} : Except RuntimeFault α → Run α
  | .ok a => fun _ st => .ok a st
  | .error f => fault f

def read {α : Type} (f : Heap → Except RuntimeFault α) : Run α := fun setting st =>
  lift (f st.heap) setting st

def lookup (name : String) : Run Value := fun setting st =>
  match st.scopes.find? name with
  | some v => .ok v st
  | none => fault (.undefined name) setting st

def scopes (f : Scopes → Scopes) : Run Unit := fun _ st =>
  .ok () { st with scopes := f st.scopes }

def assign (name : String) (v : Value) : Run Unit := fun setting st =>
  match st.scopes.assign? name v with
  | some scopes => .ok () { st with scopes := scopes }
  | none => fault (.undefined name) setting st

def truth (v : Value) : Run Bool := fun setting st =>
  lift (setting.dialect.truth v) setting st

def heap {α : Type} (f : Heap → Heap × α) : Run α := fun _ st =>
  match st with
  | ⟨scopes, heap, memo, calls, console⟩ =>
    match f heap with
    | (heap, a) => .ok a ⟨scopes, heap, memo, calls, console⟩

def alloc (items : Array Value) : Run Value :=
  heap fun h => h.alloc items

def allocCopies (vs : List Value) : Run Value :=
  heap fun h =>
    match h.copies vs with
    | (h, items) => h.alloc items

def storeCopy (store : Heap → Value → Heap) (v : Value) : Run Unit :=
  if v = .absent then halt .missing
  else heap fun h =>
    match h.copy v with
    | (h, v) => (store h v, ())

def memo (f : Memo → Memo) : Run Unit := fun _ st =>
  match st with
  | ⟨scopes, heap, memo, calls, console⟩ => .ok () ⟨scopes, heap, memo.map f, calls, console⟩

def memoize (on : Bool) : Run Unit := fun setting st =>
  if st.memo.isNone then halt .missing setting st else memo (·.enable on) setting st

/-- Runs a part in a scope of its own, prepared as given. Whatever the part
does, the scopes are afterwards as many as before. -/
def inScope {α : Type} (prepare : Scopes → Scopes) (part : Run α) : Run α := fun setting st =>
  let depth := st.scopes.depth
  match part setting { st with scopes := prepare st.scopes.push } with
  | .ok a st => .ok a { st with scopes := st.scopes.unwind depth }
  | .error h st => .error h { st with scopes := st.scopes.unwind depth }

def perform (capability : Capability) (args : List Value) : Run Value := fun setting st =>
  match st with
  | ⟨scopes, heap, memo, calls, console⟩ =>
    match setting.host capability heap args console.called with
    | ((heap, console), result) => lift result setting ⟨scopes, heap, memo, calls, console⟩

end Run

end ScriptKernel
