import ScriptKernel.Proofs.Machine.ActiveCalls
import ScriptKernel.Proofs.Machine.SideBySide

/-!
The bound on calls. The counter it is held against tells how many function
bodies are active, and no more of them than the bound ever are. A run that
never meets the bound does not depend on it.
-/

namespace ScriptKernel

def Machine.withMaxCalls (m : Machine) (bound : Int) : Machine :=
  { m with setting := { m.setting with maxCalls := bound } }

namespace Session

variable (s : Session) (m : Machine) (program : List Stmt) (fuel : Nat)

/-- A run that would stop where the counter is wrong or past the bound is the
run itself, and the counter is back at its start. -/
theorem execUnder_watched (idle : m.state.calls = 0) (h : Halt) :
    SameRun (s.execUnder (watched h fuel 0) m program) (s.execUnder (evaluators fuel) m program) ∧
      (s.execUnder (evaluators fuel) m program).2.state.calls = 0 := by
  have admits : (m.load program).2.setting.Admits 0 := Int.le_of_lt
  have agrees := Counted.watched_agree h fuel admits
  have does (t : Stmt) (_ : t ∈ (m.load program).1) : (Counted.code (m.load program).2.setting 0).Does Nat.zero t := rfl
  have leads := Counted.lawful.program (w := ()) Counted.contains agrees (fun _ _ _ => trivial) s.language.policy
    (Discipline.body_of_all does)
  refine ⟨?_, ?_⟩
  · rcases s.execUnder_follows m m rfl rfl rfl rfl idle leads with same | ⟨_, -, excused⟩
    · exact same
    · exact excused.elim
  · cases ran : runTop (evaluators fuel) s.language.policy (m.load program).1 (m.load program).2.setting m.state with
    | ok v last =>
      obtain ⟨_, _, -, -, behind, -⟩ := leads.of_ok idle ran
      rw [execUnder_ok ran]
      exact behind
    | error h last =>
      obtain ⟨_, -, -, behind, -⟩ := leads.of_error (fun _ => id) idle ran
      rw [execUnder_error ran]
      exact behind

theorem execUnder_wider {bound wider : Int} (positive : 0 < bound) (wide : bound ≤ wider ∨ wider ≤ 0)
    (unmet : ∀ name, (s.execUnder (evaluators fuel) (m.withMaxCalls bound) program).1 ≠
      .error (.fault (.callDepth bound name))) :
    SameRun (s.execUnder (evaluators fuel) (m.withMaxCalls wider) program)
      (s.execUnder (evaluators fuel) (m.withMaxCalls bound) program) := by
  let narrow := ((m.withMaxCalls bound).load program).2.setting
  let wide_ := ((m.withMaxCalls wider).load program).2.setting
  have fair : (beside narrow wide_ fun h => ∃ name, h = .fault (.callDepth bound name)).Fair := by
    refine ⟨rfl, rfl, rfl, fun _ => Or.inl rfl, Or.inr ⟨fun name => ⟨name, rfl⟩, fun active enters full => ?_⟩⟩
    have room : ¬(0 < bound ∧ bound ≤ active) := enters
    have filled : 0 < wider ∧ wider ≤ active := full
    omega
  have agrees := (Beside.lawful fair).evaluators Discipline.contains_all Discipline.functions_all rfl fuel
  rcases s.execUnder_beside (m.withMaxCalls bound) (m.withMaxCalls wider) rfl rfl fair agrees with
    same | ⟨_, stopped, name, rfl⟩
  · exact same
  · exact absurd stopped (unmet name)

/-- The bound on calls is exact and only ever rejects. Wherever an expression
or a statement of a run begins or ends, the counter is the number of active
function bodies and not past the bound; and a run that does not end with the
complaint about the bound has the same outcome and leaves the same state under
every wider bound and without any. -/
theorem call_bound_exact (idle : m.state.calls = 0) {bound : Int} (positive : 0 < bound) :
    let run (bound : Int) := s.execUnder (evaluators fuel) (m.withMaxCalls bound) program
    (∀ h, SameRun (s.execUnder (watched h fuel 0) (m.withMaxCalls bound) program) (run bound)) ∧
    (run bound).2.state.calls = 0 ∧
    ∀ wider, bound ≤ wider ∨ wider ≤ 0 → (∀ name, (run bound).1 ≠ .error (.fault (.callDepth bound name))) →
      SameRun (run wider) (run bound) := by
  intro run
  have watching := s.execUnder_watched (m.withMaxCalls bound) program fuel idle
  refine ⟨fun h => (watching h).1, (watching .missing).2, ?_⟩
  intro wider wide unmet
  exact s.execUnder_wider m program fuel positive wide unmet

/-- Of two functions that call each other one is active at a time in the first
program, both in the second, for which a bound of one is too narrow. -/
theorem call_bound_exact_nested :
    let s : Session := ⟨Language.lumen, {}⟩
    let inner := Stmt.declare 0 "f" [] [.expr (.literal (.bool true))]
    let outer := Stmt.declare 0 "g" [] [.expr (.call (.var "f") [])]
    let calling (name : String) := [inner, outer, .returnWith (some (.call (.var name) []))]
    let run (bound : Int) (name : String) := s.execUnder (evaluators 8) (s.machine.withMaxCalls bound) (calling name)
    (run 1 "g").1 = .error (.fault (.callDepth 1 "f")) ∧
      (run 2 "g").1 = .ok (.bool true) ∧
      (∀ h, SameRun (s.execUnder (watched h 8 0) (s.machine.withMaxCalls 1) (calling "g")) (run 1 "g")) ∧
      SameRun (run 2 "f") (run 1 "f") ∧ SameRun (run 0 "f") (run 1 "f") := by
  intro s inner outer calling run
  have exactly (name : String) := s.call_bound_exact s.machine (calling name) 8 rfl Int.one_pos
  have unmet (name : String) : (run 1 "f").1 ≠ .error (.fault (.callDepth 1 name)) := by
    have ended : (run 1 "f").1 = .ok (.bool true) := rfl
    rw [ended]
    intro same
    cases same
  refine ⟨rfl, rfl, (exactly "g").1, ?_, ?_⟩
  · exact (exactly "f").2.2 2 (Or.inl (by decide)) unmet
  · exact (exactly "f").2.2 0 (Or.inr (by decide)) unmet

end Session

end ScriptKernel
