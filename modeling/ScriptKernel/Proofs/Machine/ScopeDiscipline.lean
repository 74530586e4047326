import ScriptKernel.Proofs.Machine.Discipline
import ScriptKernel.Proofs.Machine.ScopeNames

/-!
Scope discipline. However the evaluation of an expression or a statement ends,
the scopes and the active calls are as many as before and no name is lost. An
expression binds nothing, and a statement at most its own target, in the
innermost scope. Each construct is settled for any evaluators of its parts;
the fuel ties them together.
-/

namespace ScriptKernel

/-- How a state may change while a part of a program runs that binds at most
the new names. -/
structure State.Settled (new : List String) (before after : State) : Prop where
  scopes : before.scopes.Grow new after.scopes
  calls : after.calls = before.calls

namespace State.Settled

variable {new : List String} {st mid last : State}

theorem refl (new : List String) (st : State) : st.Settled new st :=
  ⟨.refl new st.scopes, rfl⟩

theorem trans (first : st.Settled new mid) (second : mid.Settled new last) : st.Settled new last :=
  ⟨first.scopes.trans second.scopes, second.calls.trans first.calls⟩

theorem mono {wider : List String} (settled : st.Settled new last) (sub : new ⊆ wider) :
    st.Settled wider last :=
  ⟨settled.scopes.mono sub, settled.calls⟩

end State.Settled

theorem grow_bindings (bindings : List (String × Value)) (s : Scopes) :
    s.Grow (bindings.map Prod.fst) (bindings.foldl (fun s (param, v) => s.set param v) s) := by
  induction bindings generalizing s with
  | nil => exact .refl [] s
  | cons binding bindings ih =>
    obtain ⟨param, v⟩ := binding
    have first : s.Grow ((param, v) :: bindings |>.map Prod.fst) (s.set param v) :=
      (Scopes.Grow.set param v s).mono (by simp)
    exact first.trans ((ih (s.set param v)).mono (by simp))

def tidy (setting : Setting) : Discipline where
  setting := setting
  Place := String → Prop
  Moves allowed st last := ∃ new, (∀ name ∈ new, allowed name) ∧ st.Settled new last
  body _ _ := True

namespace Tidy

/-- A statement binds no other names than its targets; within it, as in the body
of a function, any name may be bound. -/
def code (setting : Setting) : (tidy setting).Code where
  Does allowed s := ∀ name ∈ s.targets, allowed name
  within _ _ _ := True

variable {setting : Setting}

theorem contains : ((tidy setting).correspondence (code setting)).Contains :=
  Discipline.contains_of_parts (fun _ _ => trivial) (fun _ _ => trivial) (fun _ => trivial)
    (fun _ _ _ _ => trivial) (fun _ _ => trivial) (fun _ => trivial) fun _ => trivial

theorem settled_leave {st last : State} {calls : Nat} {bindings : List (String × Value)} {new : List String}
    (settled : (st.enter calls bindings).Settled new last) : st.Settled [] (last.leave st.scopes.depth calls) := by
  have bound := (grow_bindings bindings st.scopes.push).mono (List.subset_append_left _ new)
  have grown := bound.trans (settled.scopes.mono (List.subset_append_right _ new))
  refine ⟨grown.unwind_push, ?_⟩
  have back : last.calls = st.calls + calls := settled.calls
  simp only [State.leave, back, Nat.add_sub_cancel]

theorem kept : (tidy setting).Kept (code setting) where
  refl _ st := ⟨[], List.forall_mem_nil _, .refl [] st⟩
  trans := by
    rintro allowed st mid last ⟨new, may, first⟩ ⟨later, might, second⟩
    refine ⟨new ++ later, List.forall_mem_append.2 ⟨may, might⟩, ?_⟩
    exact (first.mono (List.subset_append_left _ _)).trans (second.mono (List.subset_append_right _ _))
  change := by
    intro w allowed st last made _ change
    refine ⟨?_, w, le_rfl, trivial, fun _ _ => trivial⟩
    cases change with
    | set does target => exact ⟨[_], List.forall_mem_singleton.2 (does _ target), .set _ _ st.scopes, rfl⟩
    | assignOrSet does => exact ⟨[_], does, .assignOrSet _ _ st.scopes, rfl⟩
    | assign _ _ found => exact ⟨[], List.forall_mem_nil _, .assign found, rfl⟩
    | _ => exact ⟨[], List.forall_mem_nil _, .refl [] st.scopes, rfl⟩
  frame := by
    intro w allowed inside calls bindings st _ _ _
    refine ⟨trivial, fun v last _ _ moves => ⟨trivial, ?_⟩⟩
    obtain ⟨new, -, settled⟩ := moves
    exact ⟨[], List.forall_mem_nil _, settled_leave settled⟩
  store := by
    rintro w allowed st last memo label key v _ _ _ _ ⟨new, may, settled⟩ _
    exact ⟨trivial, new, may, settled.scopes, settled.calls⟩
  call := Iff.rfl
  called := id

theorem lawful : (tidy setting).Lawful (code setting) :=
  kept.lawful rfl (fun _ _ => trivial) fun _ => trivial

theorem evaluators_agree (fuel : Nat) :
    ((tidy setting).correspondence (code setting)).Agrees (evaluators fuel) (evaluators fuel) :=
  lawful.evaluators contains (fun _ _ _ _ => Discipline.body_of_all fun _ _ _ _ => trivial) rfl fuel

theorem settled_of_moves {st last : State} {new : List String} (moves : (tidy setting).Moves (· ∈ new) st last) :
    st.Settled new last := by
  obtain ⟨bound, may, settled⟩ := moves
  exact settled.mono may

end Tidy

theorem runTop_settled (fuel : Nat) (policy : StrayPolicy) (program : List Stmt) (setting : Setting) (st : State) :
    st.Settled (program.flatMap Stmt.targets) ((runTop (evaluators fuel) policy program).after setting st) := by
  have may (s : Stmt) (member : s ∈ program) :
      (Tidy.code setting).Does (· ∈ program.flatMap Stmt.targets) s :=
    fun _ target => List.mem_flatMap.2 ⟨s, member, target⟩
  have leads := Tidy.lawful.program (w := ()) Tidy.contains (Tidy.evaluators_agree fuel) (fun _ _ _ => trivial) policy
    (Discipline.body_of_all may)
  have here : (tidy setting).Holds () (· ∈ program.flatMap Stmt.targets) st := trivial
  exact Tidy.settled_of_moves (leads.after (fun _ => id) here).1

theorem runProgram_after (fuel : Nat) (policy : StrayPolicy) (program : List Stmt)
    (setting : Setting) (st : State) :
    (runProgram fuel policy program).after setting st =
      let last := (runTop (evaluators fuel) policy program).after setting st
      { last with scopes := last.scopes.unwind 1 } := by
  unfold Run.after runProgram
  cases runTop (evaluators fuel) policy program setting st with
  | ok v last => rfl
  | error h last => rfl

/-- The scope discipline, from every state and with any fuel, however the
evaluation ends: with a value, a signal or an early stop. Expressions bind
nothing, statements at most their own target in the innermost scope, and a
program ends with the global scope alone, which has lost no name. -/
theorem evaluation_keeps_scopes (fuel : Nat) (setting : Setting) (st : State) :
    (∀ x, st.Settled [] (((evaluators fuel).expr x).after setting st)) ∧
    (∀ s, st.Settled s.targets (((evaluators fuel).stmt s).after setting st)) ∧
    ∀ policy program,
      ((runProgram fuel policy program).after setting st).scopes.depth = 1 ∧
      ((runProgram fuel policy program).after setting st).calls = st.calls ∧
      ∀ name, st.scopes.BindsAt 0 name →
        ((runProgram fuel policy program).after setting st).scopes.BindsAt 0 name := by
  have agrees : ((tidy setting).correspondence (Tidy.code setting)).Agrees (evaluators fuel) (evaluators fuel) :=
    Tidy.evaluators_agree fuel
  have strict (h : Halt) : ¬(tidy setting).Excuses h := id
  refine ⟨fun x => ?_, fun s => ?_, fun policy program => ?_⟩
  · exact Tidy.settled_of_moves ((agrees.expr () (· ∈ []) x trivial).after strict trivial).1
  · have runs := Discipline.runs_iff.1 (agrees.stmt () (· ∈ s.targets) s fun _ target => target)
    exact Tidy.settled_of_moves (runs.after strict trivial).1
  · have settled := runTop_settled fuel policy program setting st
    rw [runProgram_after]
    generalize (runTop (evaluators fuel) policy program).after setting st = last at settled
    have least : 1 ≤ last.scopes.depth := Nat.le_add_left 1 last.scopes.inner.length
    refine ⟨last.scopes.depth_unwind 1 Nat.le.refl least, settled.calls, fun name bound => ?_⟩
    have kept := settled.scopes.kept 0 name bound
    exact (last.scopes.bindsAt_unwind 1 0 name Nat.le.refl least).mpr ⟨Nat.one_pos, kept⟩

end ScriptKernel
