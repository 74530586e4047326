import ScriptKernel.Proofs.Machine.HeapSteps
import ScriptKernel.Proofs.Session.SoundPrograms
import ScriptKernel.Proofs.Value.Trees

/-!
Assignments to elements. The array is looked up first, the position checked next,
and only then the new value is evaluated, by whatever code. As no code makes an
array shorter, the position is still one of the array when the value is stored,
and storing it replaces that element and leaves all others as they are.
-/

namespace ScriptKernel

/-- What storing a copy of a value as an element changes, and what it does not. -/
structure Heap.Assigned (before after : Heap) (cell i : Nat) (v : Value) : Prop where
  grown : before.cells.size ≤ after.cells.size
  element : after.items cell = (before.items cell).setIfInBounds i (before.copy v).2
  others : ∀ outer < before.cells.size, outer ≠ cell → after.items outer = before.items outer
  new : ∀ inner, (before.copy v).2 = .array inner → before.cells.size ≤ inner
  shows : ∀ t, before.Shows v t → after.Shows (before.copy v).2 t

theorem Heap.assigned_replace {heap : Heap} {cell i : Nat} (inside : i < (heap.items cell).size) (v : Value) :
    heap.Assigned ((heap.copy v).1.replace cell i (heap.copy v).2) cell i v := by
  have known : cell < heap.cells.size := by
    by_contra unknown
    rw [items_of_le (Nat.le_of_not_lt unknown)] at inside
    exact absurd inside (Nat.not_lt_zero i)
  have extends_ := heap.copy_extends v
  have there : cell < (heap.copy v).1.cells.size := Nat.lt_of_lt_of_le known extends_.size_le
  have changed (outer : Nat) := items_change there (·.setIfInBounds i (heap.copy v).2) outer
  refine ⟨?_, ?_, ?_, fun inner => copy_new, fun t shown => shown.copy_later ⟨?_, ?_⟩⟩
  · exact extends_.size_le.trans (size_change _ _ _).ge
  · exact (changed cell).trans (by rw [if_pos rfl, extends_.kept cell known])
  · intro outer old other
    exact (changed outer).trans (by rw [if_neg other, extends_.kept outer old])
  · exact (size_change _ _ _).ge
  · intro outer old _
    exact (changed outer).trans (if_neg (Nat.ne_of_gt (Nat.lt_of_lt_of_le known old)))

namespace Evaluators

/-- What an assignment to an element comes to. It fails where a part of it fails,
in the state that the part has come to; else the position is one of the array
that the name stood for, and the value is stored there. Irreducible, as to
reduce it is to run the parts. -/
@[irreducible]
def Assigns (ev : Evaluators) (name : String) (position x : Expr) (setting : Setting) (st : State) : Prop :=
  match st.scopes.find? name with
  | some (.array cell) =>
    match ev.expr position setting st with
    | .error h mid => ev.setItem name position x setting st = .error h mid
    | .ok p mid =>
      match Lumen.position p (mid.heap.items cell).size with
      | .error f => ev.setItem name position x setting st = .error (.fault f) mid
      | .ok i =>
        match ev.expr x setting mid with
        | .error h late => ev.setItem name position x setting st = .error h late
        | .ok v late =>
          i < (late.heap.items cell).size ∧
            if v = .absent then ev.setItem name position x setting st = .error .missing late
            else ∃ heap, ev.setItem name position x setting st = .ok .normal { late with heap := heap } ∧
              late.heap.Assigned heap cell i v
  | _ => ∃ h, ev.setItem name position x setting st = .error h st

variable {ev : Evaluators} {setting : Setting}

theorem lookup_found (setting : Setting) {name : String} {v : Value} {st : State}
    (found : st.scopes.find? name = some v) : Run.lookup name setting st = .ok v st := by
  rw [Run.lookup, found]

theorem storeCopy_replace (setting : Setting) {cell i : Nat} {v : Value} {st : State}
    (inside : i < (st.heap.items cell).size) (present : v ≠ .absent) :
    ∃ heap, Run.storeCopy (fun heap v => heap.replace cell i v) v setting st = .ok () { st with heap := heap } ∧
      st.heap.Assigned heap cell i v := by
  rw [Run.storeCopy, if_neg present]
  exact ⟨_, rfl, Heap.assigned_replace inside v⟩

theorem assigns (stepwise : ∀ x (st : State), st.heap.Steps ((ev.expr x).after setting st).heap) (name : String)
    (position x : Expr) (st : State) : ev.Assigns name position x setting st := by
  unfold Assigns
  cases found : st.scopes.find? name with
  | none =>
    have undefined : Run.lookup name setting st = .error (.fault (.undefined name)) st := by
      rw [Run.lookup, found]
      rfl
    exact ⟨_, Run.bind_error _ undefined⟩
  | some array =>
    have looked := lookup_found setting found
    cases array with
    | array cell =>
      have start : ev.setItem name position x setting st = (do
          let p ← ev.expr position
          let i ← Run.read fun heap => Lumen.position p (heap.items cell).size
          let v ← ev.expr x
          Run.storeCopy (fun heap v => heap.replace cell i v) v
          return .normal : Run Control) setting st := by
        rw [setItem, Run.bind_ok _ looked]
        rfl
      cases placed : ev.expr position setting st with
      | error h mid => exact start.trans (Run.bind_error _ placed)
      | ok p mid =>
        rw [Run.bind_ok _ placed] at start
        dsimp only
        cases checked : Lumen.position p (mid.heap.items cell).size with
        | error f =>
          have rejected : Run.read (fun heap => Lumen.position p (heap.items cell).size) setting mid =
              .error (.fault f) mid := by
            rw [Run.read, checked]
            rfl
          exact start.trans (Run.bind_error _ rejected)
        | ok i =>
          have accepted : Run.read (fun heap => Lumen.position p (heap.items cell).size) setting mid = .ok i mid := by
            rw [Run.read, checked]
            rfl
          rw [Run.bind_ok _ accepted] at start
          have least := Lumen.position_lt checked
          dsimp only
          cases valued : ev.expr x setting mid with
          | error h late => exact start.trans (Run.bind_error _ valued)
          | ok v late =>
            rw [Run.bind_ok _ valued] at start
            -- Whatever the expression has run, the array is as long as it was or longer.
            have steps : mid.heap.Steps late.heap := by
              have reached := stepwise x mid
              rwa [Run.after, valued] at reached
            have inside : i < (late.heap.items cell).size :=
              Nat.lt_of_lt_of_le (by omega) (steps.size_items_le cell)
            refine ⟨inside, ?_⟩
            split
            next absent =>
              have missing : Run.storeCopy (fun heap v => heap.replace cell i v) v setting late =
                  .error .missing late := by
                rw [Run.storeCopy, if_pos absent]
                rfl
              exact start.trans (Run.bind_error _ missing)
            next present =>
              obtain ⟨heap, stored, assigned⟩ := storeCopy_replace setting inside present
              exact ⟨heap, start.trans (Run.bind_ok _ stored), assigned⟩
    | _ => exact ⟨_, (Run.bind_ok _ looked).trans rfl⟩

end Evaluators

/-- Every assignment to an element, wherever it is executed and whatever its
parts do, either fails and leaves the state that the failed part has come to, or
stores a copy at a position that is still one of the array; no array is ever
made shorter, if the host makes none shorter either; and no run of a Lumen program
comes to an assignment of a value that is not there, if the host makes no gap. -/
theorem assignment_in_bounds {s : Session} (lumen : s.language = Language.lumen) {source : List UInt8}
    {program : List Stmt} (parsed : s.parse source = .ok program) :
    (∀ setting : Setting, setting.host.Stepwise → ∀ stop fuel st,
      (∀ name position x, (interrupted stop fuel).Assigns name position x setting st) ∧
      (∀ x, st.heap.Steps (((interrupted stop fuel).expr x).after setting st).heap) ∧
      ∀ statement, st.heap.Steps (((interrupted stop fuel).stmt statement).after setting st).heap) ∧
    (∀ heap later : Heap, heap.Steps later → ∀ cell, (heap.items cell).size ≤ (later.items cell).size) ∧
    (s.options.host.Sound →
      ∀ m, s.Reaches m → ∀ fuel, (s.execUnder (evaluators fuel) m program).1 ≠ .error .missing) := by
  refine ⟨fun setting host stop fuel st => ?_, fun heap later steps => steps.size_items_le, ?_⟩
  · have stepwise (st : State) := interrupted_stepwise host stop fuel st
    exact ⟨fun name position x => Evaluators.assigns (fun x st => (stepwise st).1 x) name position x st, stepwise st⟩
  · intro sound m reached fuel stopped
    have listed : s.language ∈ Language.all := by
      rw [lumen]
      exact List.mem_cons_self
    have ready := reached.ready .any listed sound (Host.reports_any _)
    have kept := Session.execUnder_whole (s := s) .any ready (Session.parse_uses .any listed parsed)
      fun _ settings => Whole.evaluators_agree .any settings fuel
    exact kept.2.2.2 _ stopped

theorem parsed_assignment : (⟨Language.lumen, {}⟩ : Session).parse (Text.Utf8.encode "a[b] = c()\n") =
    .ok [.setItem "a" (.var "b") (.call (.var "c") [])] := by
  refine Session.parse_of_tokens ⟨?tokens, ?lexed, ?read⟩
  case lexed => cbv; rfl
  case read =>
    change Lumen.grammar.parse (Lumen.context _ "" 512) _ = _
    rfl

theorem assignment_in_bounds_pushing :
    let s : Session := ⟨Language.lumen, {}⟩
    let program : List Stmt := [.setItem "a" (.var "b") (.call (.var "c") [])]
    let body : List Stmt := [.push (.var "a") (.literal (.bool false)), .returnWith (some (.literal .none))]
    let setting : Setting := { dialect := .lumen, empty := .none, code := #[⟨"c", [], body⟩] }
    let globals : Scope := [("a", .array 0), ("b", .number 0), ("c", .function 0 "c" 0)]
    let st : State := { scopes := { globals := globals }, heap := ⟨#[#[.bool true]]⟩, memo := none }
    s.parse (Text.Utf8.encode "a[b] = c()\n") = .ok program ∧
      (s.execUnder (evaluators 9) s.machine program).1 ≠ .error .missing ∧
      ∃ heap, (interrupted (fun _ => false) 9).setItem "a" (.var "b") (.call (.var "c") []) setting st =
          .ok .normal { st with heap := heap } ∧
        Heap.Assigned ⟨#[#[.bool true, .bool false]]⟩ heap 0 0 .none := by
  intro s program body setting globals st
  obtain ⟨everywhere, -, present⟩ := assignment_in_bounds rfl parsed_assignment
  have modest := Host.usual_modest {}
  refine ⟨parsed_assignment, present modest.sound _ .fresh 9, ?_⟩
  obtain ⟨assignments, -⟩ := everywhere setting modest.stepwise (fun _ => false) 9 st
  have assigns : (interrupted (fun _ => false) 9).Assigns "a" (.var "b") (.call (.var "c") []) setting st :=
    assignments _ _ _
  have found : st.scopes.find? "a" = some (.array 0) := rfl
  have placed : (interrupted (fun _ => false) 9).expr (.var "b") setting st = .ok (.number 0) st := rfl
  have checked : Lumen.position (.number 0) (st.heap.items 0).size = .ok 0 := by decide +kernel
  have valued : (interrupted (fun _ => false) 9).expr (.call (.var "c") []) setting st =
      .ok .none { st with heap := ⟨#[#[.bool true, .bool false]]⟩ } := rfl
  simp only [Evaluators.Assigns, found, placed, checked, valued] at assigns
  rw [if_neg nofun] at assigns
  exact assigns.2

end ScriptKernel
