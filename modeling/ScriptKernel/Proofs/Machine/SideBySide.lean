import ScriptKernel.Proofs.Machine.Discipline
import ScriptKernel.Session.Basic

/-!
Runs side by side. A run is compared with another one under other evaluators or
in another setting, which is asked to do the same, unless the first stops for a
reason that excuses it.
-/

namespace ScriptKernel

def beside (setting setting' : Setting) (excuses : Halt → Prop) : Discipline where
  setting := setting
  setting' := setting'
  Excuses := excuses

namespace Beside

variable {setting setting' : Setting} {excuses : Halt → Prop} {ev ev' : Evaluators}

theorem lawful (fair : (beside setting setting' excuses).Fair) : (beside setting setting' excuses).Lawful {} where
  toFair := fair
  toValued := .of_any fun _ _ => trivial
  toReasoned := .of_any fun _ => trivial
  toKept := .of_any (fun _ _ _ => trivial) (fun _ _ _ => trivial) fun _ _ => trivial

theorem body (body : List Stmt) : ((beside setting setting' excuses).correspondence {}).Body () body :=
  Discipline.body_of_all fun _ _ => trivial

theorem closed (fair : (beside setting setting' excuses).Fair) :
    ((beside setting setting' excuses).correspondence {}).Closed :=
  (lawful fair).closed Discipline.contains_all

end Beside

def runUnder (ev : Evaluators) (policy : StrayPolicy) (program : List Stmt) : Run Value :=
  fun setting st =>
    match runTop ev policy program setting st with
    | .ok v st => .ok v { st with scopes := st.scopes.unwind 1 }
    | .error h st => .error h { st with scopes := st.scopes.unwind 1 }

namespace Session

def execUnder (s : Session) (ev : Evaluators) (m : Machine) (program : List Stmt) : Except Halt Value × Machine :=
  let (program, m) := m.load program
  m.run (runUnder ev s.language.policy program)

theorem exec_eq (s : Session) (m : Machine) (program : List Stmt) :
    s.exec m program = s.execUnder (evaluators fuel) m program :=
  rfl

/-- Two runs have the same outcome and leave the same state, with what is
written on the console. -/
def SameRun (run run' : Except Halt Value × Machine) : Prop :=
  run.1 = run'.1 ∧ run.2.state = run'.2.state

theorem execUnder_ok {s : Session} {ev : Evaluators} {m : Machine} {program : List Stmt} {v : Value} {last : State}
    (ran : runTop ev s.language.policy (m.load program).1 (m.load program).2.setting m.state = .ok v last) :
    s.execUnder ev m program =
      (.ok v, { (m.load program).2 with state := { last with scopes := last.scopes.unwind 1 } }) := by
  have start : (m.load program).2.state = m.state := rfl
  unfold execUnder
  simp only [Machine.run, runUnder, start, ran]

theorem execUnder_error {s : Session} {ev : Evaluators} {m : Machine} {program : List Stmt} {h : Halt} {last : State}
    (ran : runTop ev s.language.policy (m.load program).1 (m.load program).2.setting m.state = .error h last) :
    s.execUnder ev m program =
      (.error h, { (m.load program).2 with state := { last with scopes := last.scopes.unwind 1 } }) := by
  have start : (m.load program).2.state = m.state := rfl
  unfold execUnder
  simp only [Machine.run, runUnder, start, ran]

theorem execUnder_follows {D : Discipline} {w : D.World} {p : D.Place} (s : Session) {ev ev' : Evaluators}
    (m m' : Machine) {program : List Stmt} (setting : D.setting = (m.load program).2.setting)
    (setting' : D.setting' = (m'.load program).2.setting) (code : m'.setting.code = m.setting.code)
    (state : m'.state = m.state) (here : D.Holds w p m.state)
    (leads : D.Leads w p D.Same (runTop ev s.language.policy (m.load program).1)
      (runTop ev' s.language.policy (m.load program).1)) :
    SameRun (s.execUnder ev' m' program) (s.execUnder ev m program) ∨
      ∃ h, (s.execUnder ev m program).1 = .error h ∧ D.Excuses h := by
  have linked : (m'.load program).1 = (m.load program).1 := by
    simp only [Machine.load, code]
  have follows := leads.follows (fun _ _ _ values => values.1.symm) here
  rw [setting, setting', ← linked, ← state] at follows
  rcases follows with same | ⟨h, last, ran, excuses⟩
  · left
    rw [linked, state] at same
    cases ran : runTop ev s.language.policy (m.load program).1 (m.load program).2.setting m.state with
    | ok v last =>
      rw [ran, ← linked, ← state] at same
      rw [execUnder_ok ran, execUnder_ok same]
      exact ⟨rfl, rfl⟩
    | error h last =>
      rw [ran, ← linked, ← state] at same
      rw [execUnder_error ran, execUnder_error same]
      exact ⟨rfl, rfl⟩
  · right
    rw [linked, state] at ran
    rw [execUnder_error ran]
    exact ⟨h, rfl, excuses⟩

theorem execUnder_beside (s : Session) (m m' : Machine) {program : List Stmt} {excuses : Halt → Prop}
    {ev ev' : Evaluators} (code : m'.setting.code = m.setting.code) (state : m'.state = m.state)
    (fair : (beside (m.load program).2.setting (m'.load program).2.setting excuses).Fair)
    (agrees : ((beside (m.load program).2.setting (m'.load program).2.setting excuses).correspondence {}).Agrees ev ev') :
    SameRun (s.execUnder ev' m' program) (s.execUnder ev m program) ∨
      ∃ h, (s.execUnder ev m program).1 = .error h ∧ excuses h :=
  s.execUnder_follows m m' rfl rfl code state trivial
    ((Beside.lawful fair).program (w := ()) Discipline.contains_all agrees (fun _ _ _ => trivial) s.language.policy
      (Beside.body _))

end Session

end ScriptKernel
