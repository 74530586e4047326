import ScriptKernel.Proofs.Machine.HeldValues

/-!
States without gaps. A state is whole when it has a cache and nothing that it
binds, holds in an array or has cached is the absent value. A program whose
literals are there, and whose operators fail for reasons of some kind only, keeps
states whole: every value that it comes by is there, and it stops for reasons of
that kind or because the fuel has run out.
-/

namespace ScriptKernel

/-- The state has a cache, and no value that it holds is absent. -/
structure State.Whole (st : State) : Prop where
  scopes : st.scopes.Each Value.Present
  elements : st.heap.Each Value.Present
  cached : st.memo.isSome
  kept : ∀ memo label key v, st.memo = some memo → memo.find? label key = some v → v.Present

namespace State.Whole

variable {st : State}

theorem of_same {last : State} (whole : st.Whole) (scopes : last.scopes = st.scopes)
    (heap : last.heap = st.heap) (memo : last.memo = st.memo) : last.Whole := by
  obtain ⟨bound, elements, cached, kept⟩ := whole
  exact ⟨scopes ▸ bound, heap ▸ elements, memo ▸ cached, memo ▸ kept⟩

theorem with_scopes (whole : st.Whole) {scopes : Scopes} (each : scopes.Each Value.Present) :
    { st with scopes := scopes }.Whole :=
  ⟨each, whole.elements, whole.cached, whole.kept⟩

theorem with_heap (whole : st.Whole) {heap : Heap} (each : heap.Each Value.Present) :
    { st with heap := heap }.Whole :=
  ⟨whole.scopes, each, whole.cached, whole.kept⟩

theorem with_memo (whole : st.Whole) {memo : Memo}
    (kept : ∀ label key v, memo.find? label key = some v → v.Present) :
    { st with memo := some memo }.Whole := by
  refine ⟨whole.scopes, whole.elements, rfl, ?_⟩
  rintro _ label key v ⟨⟩ found
  exact kept label key v found

theorem with_store (whole : st.Whole) {label : Nat} {key : String} {v : Value} (present : v.Present) :
    ({ st with memo := st.memo.map (·.store label key v) } : State).Whole := by
  obtain ⟨memo, cached⟩ := Option.isSome_iff_exists.1 whole.cached
  rw [cached]
  refine whole.with_memo fun other text w held => ?_
  rw [Memo.find?_store] at held
  split at held
  next =>
    cases held
    exact present
  next => exact whole.kept memo other text w cached held

end State.Whole

theorem Heap.Each.store {P : Value → Prop} {heap : Heap} (each : heap.Each P) {v : Value} (holds : P v)
    (cell : Nat) {f : Array Value → Array Value} (adds : Adds v f) : (heap.change cell f).Each P := by
  by_cases known : cell < heap.cells.size
  · exact each.change adds holds known
  · intro outer w member
    have unchanged : (heap.change cell f).items outer = heap.items outer := by
      simp only [Heap.change, Heap.items, Array.getElem?_modify]
      by_cases same : cell = outer
      · subst same
        simp [Nat.le_of_not_lt known]
      · rw [if_neg same]
    rw [unchanged] at member
    exact each outer w member

/-- Stopping for a fault of the kind, or because the fuel has run out; not for
want of a value. -/
def Halt.Of (P : RuntimeFault → Prop) : Halt → Prop
  | .fault f => P f
  | .missing => False
  | .outOfFuel => True

def Expr.Ready (P : RuntimeFault → Prop) : Expr → Prop
  | .literal v => v.Present
  | .binary op _ _ => ∀ left right, Faults P (Lumen.arith op left right)
  | .compare op _ _ => ∀ heap left right, Faults P (Lumen.compare heap op left right)
  | .intBinary op _ _ => ∀ left right, Faults P (MiniRust.arith op left right)
  | .intCompare op _ _ => ∀ heap left right, Faults P (MiniRust.compare heap op left right)
  | _ => True

def Supported (P : RuntimeFault → Prop) : Prop :=
  ∀ f : RuntimeFault, f.isInvalidOperator = false → P f

theorem Supported.any : Supported fun _ => True :=
  fun _ _ => trivial

theorem Supported.operands {P : RuntimeFault → Prop} (supported : Supported P) : OfOperands P :=
  fun f _ valid => supported f valid

/-- What a run may be given: functions that are ready, an empty value that is
there, and a host that makes no gap and fails for reasons of the kind. -/
structure Setting.Ready (P : RuntimeFault → Prop) (setting : Setting) : Prop where
  code : ∀ f ∈ setting.code, ∀ s ∈ f.body, s.Uses (Expr.Ready P)
  empty : setting.empty.Present
  host : setting.host.Sound
  reports : setting.host.Reports P

def whole (P : RuntimeFault → Prop) (setting : Setting) : Discipline where
  setting := setting
  Holds _ _ st := st.Whole
  Good _ := Value.Present
  Stops := Halt.Of P

namespace Whole

def code (P : RuntimeFault → Prop) (setting : Setting) : (whole P setting).Code where
  Reads _ x := x.Every (Expr.Ready P)
  Does _ s := s.Uses (Expr.Ready P)

variable {P : RuntimeFault → Prop} {setting : Setting}

theorem contains : ((whole P setting).correspondence (code P setting)).Contains :=
  Discipline.contains_of_parts (fun reads => reads.parts _) (fun does => does.exprs _)
    (fun _ => .intro trivial (List.forall_mem_nil _)) (fun does member => does.inner member) (fun _ => id)
    (fun _ => trivial) fun _ => trivial

theorem valued (ready : setting.Ready P) : (whole P setting).Valued (code P setting) where
  later _ present := present
  plain plain := plain.present
  literal reads := reads.here
  empty := ready.empty
  lookup holds found := holds.scopes.find? found
  item holds member := holds.elements _ _ member

theorem operation_faults (supported : Supported P) {x : Expr}
    {f : Heap → Value → Value → Except RuntimeFault Value} (here : x.operation = some f) (ready : x.Ready P)
    (heap : Heap) (a b : Value) : Faults P (f heap a b) := by
  cases x with
  | binary op left right | intBinary op left right =>
    cases here
    exact ready a b
  | compare op left right | intCompare op left right =>
    cases here
    exact ready heap a b
  | range start stop =>
    cases here
    exact Lumen.range_faults supported.operands a b
  | index y position =>
    cases here
    exact Lumen.index_faults supported.operands heap a b
  | _ => cases here

theorem stops_stray (supported : Supported P) {f : RuntimeFault} (stray : f.isStray) : P f := by
  cases f with
  | stray | strayIn => exact supported _ rfl
  | _ => cases stray

theorem reasoned (supported : Supported P) (ready : setting.Ready P) :
    (whole P setting).Reasoned (code P setting) where
  operand _ _ handled := supported _ handled
  operator here reads := operation_faults supported here reads.here
  stray stray _ := stops_stray supported stray
  fuel := trivial
  absent present := present rfl
  uncached holds missing := by
    have cached := holds.cached
    rw [missing] at cached
    cases cached
  refused _ _ asked := ready.reports _ _ _ _ _ (congrArg Prod.snd asked)

theorem kept (ready : setting.Ready P) : (whole P setting).Kept (code P setting) where
  refl _ _ := trivial
  trans _ _ := trivial
  change := by
    intro w p st last made holds change
    have kept : st.Whole := holds
    refine ⟨trivial, w, le_rfl, ?_⟩
    cases change with
    | set does target good => exact ⟨kept.with_scopes (kept.scopes.set good), List.forall_mem_nil _⟩
    | assignOrSet does good => exact ⟨kept.with_scopes (kept.scopes.assignOrSet good), List.forall_mem_nil _⟩
    | assign does good found => exact ⟨kept.with_scopes (kept.scopes.assign? good found), List.forall_mem_nil _⟩
    | collect given =>
      have each := kept.elements.alloc fun v member => given v (List.mem_toArray.1 member)
      exact ⟨kept.with_heap each, List.forall_mem_singleton.2 (Value.present_array _)⟩
    | copies given =>
      have copied := Heap.copies_each Value.present_array kept.elements given
      exact ⟨kept.with_heap (copied.1.alloc copied.2), List.forall_mem_singleton.2 (Value.present_array _)⟩
    | @replace cell i v known good =>
      have copied := Heap.copy_each Value.present_array kept.elements good
      exact ⟨kept.with_heap (copied.1.store copied.2 cell (Heap.adds_set i _)), List.forall_mem_nil _⟩
    | @append cell v known good =>
      have copied := Heap.copy_each Value.present_array kept.elements good
      exact ⟨kept.with_heap (copied.1.store copied.2 cell (Heap.adds_push _)), List.forall_mem_nil _⟩
    | @memoize memo on does cached =>
      refine ⟨kept.with_memo fun label key v found => ?_, List.forall_mem_nil _⟩
      cases on with
      | true => exact kept.kept memo label key v cached found
      | false => simp [Memo.enable, Memo.find?] at found
    | @hit memo label key v cached on found =>
      refine ⟨kept.with_memo fun other text w held => ?_, List.forall_mem_singleton.2 (kept.kept memo _ _ _ cached found)⟩
      exact kept.kept memo other text w cached held
    | @answer capability args heap console v offered given asked =>
      obtain ⟨each, gives⟩ := ready.host capability st.heap args st.console.called kept.elements given
      rw [show setting.host capability st.heap args _ = _ from asked] at each gives
      exact ⟨(kept.with_heap each).of_same rfl rfl rfl, List.forall_mem_singleton.2 (gives v rfl)⟩
    | @refusal capability args heap console f offered given asked =>
      obtain ⟨each, -⟩ := ready.host capability st.heap args st.console.called kept.elements given
      rw [show setting.host capability st.heap args _ = _ from asked] at each
      exact ⟨(kept.with_heap each).of_same rfl rfl rfl, List.forall_mem_nil _⟩
  frame := by
    intro w p q calls bindings st _ holds given
    have entered := holds.with_scopes (holds.scopes.push.fold given)
    refine ⟨entered.of_same rfl rfl rfl, fun v last _ still _ => ⟨?_, trivial⟩⟩
    exact (still.with_scopes (still.scopes.unwind _)).of_same rfl rfl rfl
  store _ _ _ holds _ present := ⟨holds.with_store present, trivial⟩
  call := Iff.rfl
  called := id

theorem lawful (supported : Supported P) (ready : setting.Ready P) : (whole P setting).Lawful (code P setting) where
  toFair := .of_same rfl
  toValued := valued ready
  toReasoned := reasoned supported ready
  toKept := kept ready

theorem functions (ready : setting.Ready P) : Discipline.Functions (code P setting) :=
  fun _ f found _ => Discipline.body_of_all (ready.code f (Array.mem_of_getElem? found))

theorem evaluators_agree (supported : Supported P) (ready : setting.Ready P) (fuel : Nat) :
    ((whole P setting).correspondence (code P setting)).Agrees (evaluators fuel) (evaluators fuel) :=
  (lawful supported ready).evaluators contains (functions ready) rfl fuel

end Whole

end ScriptKernel
