import ScriptKernel.Proofs.Machine.CacheSteps
import ScriptKernel.Proofs.Machine.Hosts
import ScriptKernel.Proofs.Machine.OwnScopes

/-!
The values that a run comes by. If a program is written without arrays and host
functions in it, every value that an expression gives or that the scopes, the
arrays and the cache hold is there, is an array of the heap if it is one, and
makes no array by itself if it is a host function. Arrays then come from
literals alone and change by pushes and assignments alone, which copy what they
store, so that the heap stays a forest.
-/

namespace ScriptKernel

namespace Value

/-- A value that a program can come by: there is one, and as a host function it
makes no array of values that are not copied. -/
def Proper : Value → Prop
  | absent => False
  | native _ _ _ action => action = .length
  | _ => True

/-- A proper value which, as an array, is one of so many in the heap. -/
structure Belongs (size : Nat) (v : Value) : Prop where
  proper : v.Proper
  known : ∀ cell, v = .array cell → cell < size

theorem Belongs.mono {v : Value} {size larger : Nat} (belongs : v.Belongs size) (le : size ≤ larger) :
    v.Belongs larger :=
  ⟨belongs.proper, fun cell same => Nat.lt_of_lt_of_le (belongs.known cell same) le⟩

theorem Plain.belongs {v : Value} (plain : v.Plain) (size : Nat) : v.Belongs size := by
  cases v with
  | absent | array | native => exact plain.elim
  | _ => exact ⟨trivial, nofun⟩

end Value

def Expr.LiteralOf (P : Value → Prop) : Expr → Prop
  | .literal v => P v
  | _ => True

/-- What a run may be given: functions without arrays in them, an empty value that
is none, and a host that makes none. -/
structure Setting.Literals (setting : Setting) : Prop where
  code : ∀ f ∈ setting.code, ∀ s ∈ f.body, s.Uses (Expr.LiteralOf Value.Plain)
  empty : setting.empty.Plain
  host : setting.host.Modest

def Scopes.Each (P : Value → Prop) (s : Scopes) : Prop :=
  ∀ scope ∈ s.globals :: s.inner, ∀ entry ∈ scope, P entry.2

/-- The heap is a forest, and every value that a state holds belongs to it. -/
structure State.Consistent (st : State) : Prop where
  forest : st.heap.Forest
  scopes : st.scopes.Each (Value.Belongs st.heap.cells.size)
  elements : st.heap.Each Value.Proper
  kept : ∀ memo label key v, st.memo = some memo → memo.find? label key = some v →
    v.Belongs st.heap.cells.size

namespace Scopes.Each

variable {P Q : Value → Prop} {s : Scopes} {name : String} {v : Value}

theorem mono (each : s.Each P) (sub : ∀ v, P v → Q v) : s.Each Q :=
  fun scope member entry inside => sub entry.2 (each scope member entry inside)

theorem push (each : s.Each P) : s.push.Each P := by
  intro scope member
  rcases List.mem_cons.1 member with rfl | inner
  · exact each _ List.mem_cons_self
  · rcases List.mem_cons.1 inner with rfl | old
    · exact List.forall_mem_nil _
    · exact each scope (List.mem_cons_of_mem _ old)

theorem unwind (each : s.Each P) (depth : Nat) : (s.unwind depth).Each P := by
  intro scope member
  rcases List.mem_cons.1 member with rfl | inner
  · exact each _ List.mem_cons_self
  · exact each scope (List.mem_cons_of_mem _ (List.mem_of_mem_drop inner))

theorem set_scope {scope : Scope} (each : ∀ entry ∈ scope, P entry.2) (holds : P v) :
    ∀ entry ∈ Scope.set name v scope, P entry.2 := by
  intro entry member
  rcases Scope.mem_set member with rfl | old
  · exact holds
  · exact each entry old

theorem set (each : s.Each P) (holds : P v) : (s.set name v).Each P := by
  obtain ⟨inner, globals⟩ := s
  cases inner with
  | nil =>
    intro scope member
    obtain rfl := List.mem_singleton.1 member
    exact set_scope (each globals List.mem_cons_self) holds
  | cons first outer =>
    intro scope member
    rcases List.mem_cons.1 member with rfl | inside
    · exact each _ List.mem_cons_self
    · rcases List.mem_cons.1 inside with rfl | old
      · exact set_scope (each first (by simp)) holds
      · exact each scope (by simp [old])

theorem assignIn {inner rebound : List Scope} (each : ∀ scope ∈ inner, ∀ entry ∈ scope, P entry.2)
    (holds : P v) (located : assignIn name v inner = some rebound) :
    ∀ scope ∈ rebound, ∀ entry ∈ scope, P entry.2 := by
  induction inner generalizing rebound with
  | nil => cases located
  | cons first outer ih =>
    have here := each first List.mem_cons_self
    have below : ∀ scope ∈ outer, ∀ entry ∈ scope, P entry.2 := fun scope member =>
      each scope (List.mem_cons_of_mem first member)
    simp only [Scopes.assignIn] at located
    split at located
    · cases located
      exact List.forall_mem_cons.2 ⟨set_scope here holds, below⟩
    · obtain ⟨later, found, rfl⟩ := Option.map_eq_some_iff.1 located
      exact List.forall_mem_cons.2 ⟨here, ih below found⟩

theorem assign? {t : Scopes} (each : s.Each P) (holds : P v) (found : s.assign? name v = some t) :
    t.Each P := by
  obtain ⟨globals, inner⟩ := List.forall_mem_cons.1 each
  simp only [Scopes.assign?] at found
  split at found
  · next rebound located =>
    cases found
    exact List.forall_mem_cons.2 ⟨globals, assignIn inner holds located⟩
  · split at found
    · cases found
      exact List.forall_mem_cons.2 ⟨set_scope globals holds, inner⟩
    · cases found

theorem assignOrSet (each : s.Each P) (holds : P v) : (s.assignOrSet name v).Each P := by
  unfold Scopes.assignOrSet
  cases found : s.assign? name v with
  | some t => exact each.assign? holds found
  | none => exact each.set holds

theorem fold {bindings : List (String × Value)} (each : s.Each P) (holds : ∀ binding ∈ bindings, P binding.2) :
    (bindings.foldl (fun s (name, v) => s.set name v) s).Each P := by
  induction bindings generalizing s with
  | nil => exact each
  | cons binding bindings ih =>
    obtain ⟨here, later⟩ := List.forall_mem_cons.1 holds
    exact ih (each.set here) later

theorem find? (each : s.Each P) (found : s.find? name = some v) : P v := by
  obtain ⟨globals, inner⟩ := List.forall_mem_cons.1 each
  have within (scopes : List Scope) (each : ∀ scope ∈ scopes, ∀ entry ∈ scope, P entry.2) (w : Value)
      (found : findIn name scopes = some w) : P w := by
    induction scopes with
    | nil => cases found
    | cons scope outer ih =>
      simp only [findIn] at found
      split at found
      next here =>
        cases found
        exact each scope List.mem_cons_self _ (Scope.mem_of_find? here)
      next => exact ih (fun scope member => each scope (List.mem_cons_of_mem _ member)) found
  simp only [Scopes.find?] at found
  split at found
  next inside =>
    cases found
    exact within _ inner v inside
  next => exact globals _ (Scope.mem_of_find? found)

end Scopes.Each

namespace State.Consistent

variable {st : State}

theorem of_same {last : State} (consistent : st.Consistent) (heap : last.heap = st.heap)
    (scopes : last.scopes = st.scopes) (memo : last.memo = st.memo) : last.Consistent := by
  obtain ⟨forest, each, elements, kept⟩ := consistent
  refine ⟨heap ▸ forest, ?_, ?_, ?_⟩
  · rw [heap, scopes]
    exact each
  · rw [heap]
    exact elements
  · rw [heap, memo]
    exact kept

theorem with_scopes (consistent : st.Consistent) {scopes : Scopes}
    (each : scopes.Each (Value.Belongs st.heap.cells.size)) : { st with scopes := scopes }.Consistent :=
  ⟨consistent.forest, each, consistent.elements, consistent.kept⟩

theorem with_memo (consistent : st.Consistent) {memo : Option Memo}
    (kept : ∀ cache label key v, memo = some cache → cache.find? label key = some v →
      v.Belongs st.heap.cells.size) : { st with memo := memo }.Consistent :=
  ⟨consistent.forest, consistent.scopes, consistent.elements, kept⟩

theorem with_store (consistent : st.Consistent) {label : Nat} {key : String} {v : Value}
    (belongs : v.Belongs st.heap.cells.size) :
    ({ st with memo := st.memo.map (·.store label key v) } : State).Consistent := by
  refine consistent.with_memo ?_
  intro cache other text w found held
  obtain ⟨old, known, rfl⟩ := Option.map_eq_some_iff.1 found
  rw [Memo.find?_store] at held
  split at held
  next =>
    cases held
    exact belongs
  next => exact consistent.kept old other text w known held

theorem with_heap (consistent : st.Consistent) {heap : Heap} (forest : heap.Forest)
    (le : st.heap.cells.size ≤ heap.cells.size)
    (elements : heap.Each Value.Proper) : { st with heap := heap }.Consistent where
  forest := forest
  scopes := consistent.scopes.mono fun _ belongs => belongs.mono le
  elements := elements
  kept memo label key v found held := (consistent.kept memo label key v found held).mono le

theorem belongs_item (consistent : st.Consistent) {cell : Nat} {v : Value}
    (member : v ∈ st.heap.items cell) : v.Belongs st.heap.cells.size := by
  refine ⟨consistent.elements cell v member, ?_⟩
  rintro inner rfl
  exact consistent.forest.allocated cell inner member

theorem allocCopies (consistent : st.Consistent) {vs : List Value} (belongs : ∀ v ∈ vs, v.Belongs st.heap.cells.size) :
    let made := (st.heap.copies vs).1.alloc (st.heap.copies vs).2
    { st with heap := made.1 }.Consistent ∧ st.heap.cells.size ≤ made.1.cells.size ∧
      made.2.Belongs made.1.cells.size := by
  intro made
  have copied : st.heap.Copied (st.heap.copies vs).1 (st.heap.copies vs).2.toList := by
    apply Heap.copies_copied consistent.forest
    exact fun cell member => (belongs _ member).known cell rfl
  have each : (st.heap.copies vs).1.Each Value.Proper ∧ ∀ v ∈ (st.heap.copies vs).2, v.Proper :=
    Heap.copies_each (fun _ => trivial) consistent.elements fun v member => (belongs v member).proper
  have fresh := copied.alloc
  have grown := fresh.extends_.size_le
  refine ⟨consistent.with_heap fresh.forest grown (each.1.alloc each.2), grown, trivial, ?_⟩
  rintro cell ⟨⟩
  exact (fresh.fresh _ (List.mem_singleton.2 rfl)).2.1

theorem storeCopy (consistent : st.Consistent) {v : Value} (belongs : v.Belongs st.heap.cells.size) {cell : Nat}
    (known : cell < st.heap.cells.size) {f : Value → Array Value → Array Value} (adds : ∀ v, Heap.Adds v (f v)) :
    let stored := (st.heap.copy v).1.change cell (f (st.heap.copy v).2)
    { st with heap := stored }.Consistent ∧ st.heap.cells.size ≤ stored.cells.size := by
  intro stored
  have copied := Heap.copy_copied consistent.forest belongs.known
  have each := Heap.copy_each (P := Value.Proper) (fun _ => trivial) consistent.elements belongs.proper
  have still : cell < (st.heap.copy v).1.cells.size := Nat.lt_of_lt_of_le known copied.extends_.size_le
  have grown : st.heap.cells.size ≤ stored.cells.size := copied.extends_.size_le.trans (Heap.size_change ..).ge
  exact ⟨consistent.with_heap (copied.change (adds _) known) grown (each.1.change (adds _) each.2 still), grown⟩

end State.Consistent

def held (setting : Setting) : Discipline where
  setting := setting
  World := Nat
  order := inferInstance
  Holds size _ st := st.Consistent ∧ st.heap.cells.size = size
  Good size v := v.Belongs size

namespace Held

def code (setting : Setting) : (held setting).Code where
  Reads _ x := x.Every (Expr.LiteralOf Value.Plain)
  Does _ s := s.Uses (Expr.LiteralOf Value.Plain)

variable {setting : Setting}

theorem contains : ((held setting).correspondence (code setting)).Contains :=
  Discipline.contains_of_parts (fun reads => reads.parts _) (fun does => does.exprs _)
    (fun _ => .intro trivial (List.forall_mem_nil _)) (fun does member => does.inner member) (fun _ => id)
    (fun _ => trivial) fun _ => trivial

theorem valued (literals : setting.Literals) : (held setting).Valued (code setting) where
  later le belongs := belongs.mono le
  plain plain := plain.belongs _
  literal reads := (show Value.Plain _ from reads.here).belongs _
  empty := literals.empty.belongs _
  lookup := by
    rintro size p st name a ⟨consistent, rfl⟩ found
    exact consistent.scopes.find? found
  item := by
    rintro size p st cell a ⟨consistent, rfl⟩ member
    exact consistent.belongs_item member

theorem kept (literals : setting.Literals) : (held setting).Kept (code setting) where
  refl _ _ := trivial
  trans _ _ := trivial
  change := by
    rintro size p st last made ⟨consistent, rfl⟩ change
    refine ⟨trivial, ?_⟩
    cases change with
    | set does target good =>
      exact ⟨_, le_rfl, ⟨consistent.with_scopes (consistent.scopes.set good), rfl⟩, List.forall_mem_nil _⟩
    | assignOrSet does good =>
      exact ⟨_, le_rfl, ⟨consistent.with_scopes (consistent.scopes.assignOrSet good), rfl⟩, List.forall_mem_nil _⟩
    | assign does good found =>
      exact ⟨_, le_rfl, ⟨consistent.with_scopes (consistent.scopes.assign? good found), rfl⟩, List.forall_mem_nil _⟩
    | collect given native =>
      -- A host function that makes arrays does not come up.
      obtain ⟨module, name, arity, belongs⟩ := native
      cases (show NativeAction.collect = .length from belongs.proper)
    | copies given =>
      obtain ⟨still, grown, belongs⟩ := consistent.allocCopies given
      exact ⟨_, grown, ⟨still, rfl⟩, List.forall_mem_singleton.2 belongs⟩
    | @replace cell i v known good =>
      obtain ⟨still, grown⟩ := consistent.storeCopy good (known.known _ rfl) fun v => Heap.adds_set i v
      exact ⟨_, grown, ⟨still, rfl⟩, List.forall_mem_nil _⟩
    | append known good =>
      obtain ⟨still, grown⟩ := consistent.storeCopy good (known.known _ rfl) fun v => Heap.adds_push v
      exact ⟨_, grown, ⟨still, rfl⟩, List.forall_mem_nil _⟩
    | @memoize memo on does cached =>
      refine ⟨_, le_rfl, ⟨consistent.with_memo ?_, rfl⟩, List.forall_mem_nil _⟩
      rintro _ label key v ⟨⟩ found
      cases on with
      | true => exact consistent.kept memo label key v cached found
      | false => simp [Memo.enable, Memo.find?] at found
    | @hit memo label key v cached on found =>
      have belongs := consistent.kept memo label key v cached found
      refine ⟨_, le_rfl, ⟨consistent.with_memo ?_, rfl⟩, List.forall_mem_singleton.2 belongs⟩
      rintro _ other text w ⟨⟩ held
      exact consistent.kept memo other text w cached held
    | @answer capability args heap console v offered given asked =>
      have same := literals.host.heap capability st.heap args st.console.called
      rw [show setting.host capability st.heap args _ = _ from asked] at same
      have result : (setting.host capability st.heap args st.console.called).2 = .ok v := congrArg Prod.snd asked
      refine ⟨_, le_rfl, ⟨consistent.of_same same rfl rfl, congrArg (·.cells.size) same⟩, ?_⟩
      refine List.forall_mem_singleton.2 ?_
      rcases literals.host.value result with argument | plain
      · exact given v argument
      · exact plain.belongs _
    | @refusal capability args heap console f offered given asked =>
      have same := literals.host.heap capability st.heap args st.console.called
      rw [show setting.host capability st.heap args _ = _ from asked] at same
      exact ⟨_, le_rfl, ⟨consistent.of_same same rfl rfl, congrArg (·.cells.size) same⟩, List.forall_mem_nil _⟩
  frame := by
    rintro size p q calls bindings st - ⟨consistent, rfl⟩ given
    have entered := consistent.with_scopes (consistent.scopes.push.fold given)
    refine ⟨⟨entered.of_same rfl rfl rfl, rfl⟩, fun larger last _ holds _ => ⟨?_, trivial⟩⟩
    obtain ⟨still, rfl⟩ := holds
    exact ⟨(still.with_scopes (still.scopes.unwind _)).of_same rfl rfl rfl, rfl⟩
  store := by
    rintro size p st last memo label key v - - - ⟨consistent, rfl⟩ - belongs
    exact ⟨⟨consistent.with_store belongs, rfl⟩, trivial⟩
  call := Iff.rfl
  called := id

theorem lawful (literals : setting.Literals) : (held setting).Lawful (code setting) where
  toFair := .of_same rfl
  toValued := valued literals
  toReasoned := .of_any fun _ => trivial
  toKept := kept literals

end Held

theorem State.Consistent.after {setting : Setting} (literals : setting.Literals) (stop : State → Bool) (fuel : Nat)
    (policy : StrayPolicy) {program : List Stmt} (uses : ∀ s ∈ program, s.Uses (Expr.LiteralOf Value.Plain))
    {st : State} (consistent : st.Consistent) :
    ((runTop (interrupted stop fuel) policy program).after setting st).Consistent := by
  have lawful := Held.lawful literals
  have functions : Discipline.Functions (Held.code setting) := fun _ f found _ =>
    Discipline.body_of_all (literals.code f (Array.mem_of_getElem? found))
  have agrees := lawful.interrupted Held.contains functions rfl stop fuel
  have leads := lawful.program (w := st.heap.cells.size) (p := ()) Held.contains agrees (fun _ _ _ => trivial) policy
    (Discipline.body_of_all uses)
  obtain ⟨-, size, -, still, -⟩ := leads.after (fun _ => id) ⟨consistent, rfl⟩
  exact still

end ScriptKernel
