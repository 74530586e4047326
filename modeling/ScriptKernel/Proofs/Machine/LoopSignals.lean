import ScriptKernel.Proofs.Machine.Hosts
import ScriptKernel.Proofs.Machine.SideBySide

/-!
Signals for loops. A loop keeps to itself what its body sends it, so a signal
that stands in a loop of its own function, or of the top level, never reaches
the end of the function or of the program, and no run complains of it.
-/

namespace ScriptKernel

mutual

/-- Whether every signal for a loop has a loop around it, within the statement
or, where `inside` says so, around it. -/
def Stmt.looped (inside : Bool) : Stmt → Bool
  | .breakLoop => inside
  | .continueLoop => inside
  | .block body => Stmt.allLooped inside body
  | .cond _ yes no => Stmt.allLooped inside yes && Stmt.allLooped inside no
  | .whileLoop _ body _ => Stmt.allLooped true body
  | .endless body => Stmt.allLooped true body
  | .forEach _ _ body => Stmt.allLooped true body
  | .declare _ _ _ body => Stmt.allLooped false body
  | _ => true

def Stmt.allLooped (inside : Bool) : List Stmt → Bool
  | [] => true
  | s :: rest => s.looped inside && Stmt.allLooped inside rest

end

/-- Whether the statement that ended so has sent a signal to a loop around it. -/
def Control.signals : Control → Bool
  | .breaking => true
  | .continuing => true
  | _ => false

def Setting.Looped (setting : Setting) : Prop :=
  ∀ f ∈ setting.code, Stmt.allLooped false f.body

theorem Stmt.allLooped_iff {inside : Bool} {body : List Stmt} :
    Stmt.allLooped inside body ↔ ∀ s ∈ body, s.looped inside := by
  induction body with
  | nil => exact ⟨fun _ => List.forall_mem_nil _, fun _ => rfl⟩
  | cons s rest ih => rw [Stmt.allLooped, Bool.and_eq_true, ih, List.forall_mem_cons]

/-- Within a loop signals may be sent; in the body of a function only within the
loops there. No run complains of a stray signal. -/
def heeding (setting : Setting) : Discipline where
  setting := setting
  Place := Bool
  Stops h := ∀ f, h = .fault f → f.isStray = false
  body _ := false

namespace Heeding

def code (setting : Setting) : (heeding setting).Code where
  Does inside s := s.looped inside
  within inside s := s.isLoop || inside
  Signals inside := inside = true

variable {setting : Setting}

theorem looped_of_inner {inside : Bool} {s t : Stmt} (looped : s.looped inside) (member : t ∈ s.inner) :
    t.looped (s.isLoop || inside) := by
  cases s with
  | block body | whileLoop test body negated | endless body | forEach name items body =>
    exact Stmt.allLooped_iff.1 looped t member
  | cond test yes no =>
    rw [Stmt.looped, Bool.and_eq_true] at looped
    rcases List.mem_append.1 member with here | there
    · exact Stmt.allLooped_iff.1 looped.1 t here
    · exact Stmt.allLooped_iff.1 looped.2 t there
  | _ => cases member

theorem contains : ((heeding setting).correspondence (code setting)).Contains := by
  refine Discipline.contains_of_parts (fun _ _ => trivial) (fun _ _ => trivial) (fun _ => trivial) looped_of_inner ?_
    id id
  intro inside s other sent
  change (s.isLoop || inside) = true at sent
  rwa [other] at sent

theorem reasoned (reports : setting.host.Reports fun f => f.isStray = false) :
    (heeding setting).Reasoned (code setting) where
  operand := by
    rintro f orderly - _ ⟨⟩
    exact orderly
  operator := by
    rintro inside x f here - heap a b e failed _ ⟨⟩
    exact x.operation_orderly here heap a b e failed
  stray _ sent := absurd sent Bool.false_ne_true
  fuel := by rintro f ⟨⟩
  absent := by rintro w - f ⟨⟩
  uncached := by rintro w inside st - - f ⟨⟩
  refused := by
    rintro w inside st capability args after f - - asked _ ⟨⟩
    exact reports _ _ _ _ _ (congrArg Prod.snd asked)

theorem lawful (reports : setting.host.Reports fun f => f.isStray = false) :
    (heeding setting).Lawful (code setting) where
  toFair := .of_same rfl
  toValued := .of_any fun _ _ => trivial
  toReasoned := reasoned reports
  toKept := .of_any (fun _ _ _ => trivial) (fun _ _ _ => trivial) fun _ _ => trivial

theorem body {inside : Bool} {body : List Stmt} (looped : Stmt.allLooped inside body) :
    ((heeding setting).correspondence (code setting)).Body inside body :=
  Discipline.body_of_all (Stmt.allLooped_iff.1 looped)

theorem functions (looped : setting.Looped) : Discipline.Functions (code setting) :=
  fun _ f found _ => body (looped f (Array.mem_of_getElem? found))

theorem runTop_orderly (reports : setting.host.Reports fun f => f.isStray = false) (looped : setting.Looped)
    {program : List Stmt} (here : Stmt.allLooped false program) (fuel : Nat) (policy : StrayPolicy) {st last : State}
    {f : RuntimeFault} (ran : runTop (evaluators fuel) policy program setting st = .error (.fault f) last) :
    f.isStray = false := by
  have agrees := (lawful reports).evaluators contains (functions looped) rfl fuel
  have leads := (lawful reports).program (w := ()) contains agrees (fun sent => absurd sent Bool.false_ne_true) policy
    (body here)
  obtain ⟨_, -, -, -, stops⟩ := leads.of_error (fun _ => id) trivial ran
  exact stops f rfl

end Heeding

theorem loop_quiet {s : Stmt} (isLoop : s.isLoop) {fuel : Nat} {setting : Setting} {st last : State} {c : Control}
    (ran : (evaluators fuel).stmt s setting st = .ok c last) : c.signals = false := by
  cases fuel with
  | zero => cases ran
  | succ fuel =>
    have fair : (beside setting setting fun _ => False).Fair := .of_same rfl
    have agrees := (Beside.lawful fair).evaluators Discipline.contains_all Discipline.functions_all rfl fuel
    have leads := agrees.loop (w := ()) (p := ()) (Beside.closed fair) (Eq.refl fuel) isLoop trivial
    obtain ⟨_, _, -, -, -, controls⟩ := Discipline.Leads.of_ok leads trivial ran
    cases controls with
    | normal | returning => rfl
    | breaking sent | continuing sent => exact sent.elim

mutual

theorem Stmt.link_looped : ∀ (s : Stmt) (code : Array Function) (inside : Bool), s.looped inside →
    (∀ f ∈ code, Stmt.allLooped false f.body) →
    (s.link code).1.looped inside ∧ ∀ f ∈ (s.link code).2, Stmt.allLooped false f.body
  | .block body, code, inside, looped, known => linkAll_looped body code inside looped known
  | .cond test yes no, code, inside, looped, known => by
    simp only [Stmt.looped, Bool.and_eq_true] at looped
    have first := linkAll_looped yes code inside looped.1 known
    have second := linkAll_looped no (linkAll yes code).2 inside looped.2 first.2
    refine ⟨?_, second.2⟩
    simp only [Stmt.link, Stmt.looped, Bool.and_eq_true]
    exact ⟨first.1, second.1⟩
  | .whileLoop test body negated, code, _, looped, known => linkAll_looped body code true looped known
  | .endless body, code, _, looped, known => linkAll_looped body code true looped known
  | .forEach name items body, code, _, looped, known => linkAll_looped body code true looped known
  | .declare label name params body, code, _, looped, known => by
    have inner := linkAll_looped body code false looped known
    refine ⟨inner.1, fun f member => ?_⟩
    rcases Array.mem_push.1 member with old | rfl
    · exact inner.2 f old
    · exact inner.1
  | .expr _, _, _, looped, known => ⟨looped, known⟩
  | .define _ _, _, _, looped, known => ⟨looped, known⟩
  | .assign _ _ _, _, _, looped, known => ⟨looped, known⟩
  | .breakLoop, _, _, looped, known => ⟨looped, known⟩
  | .continueLoop, _, _, looped, known => ⟨looped, known⟩
  | .returnWith _, _, _, looped, known => ⟨looped, known⟩
  | .setItem _ _ _, _, _, looped, known => ⟨looped, known⟩
  | .push _ _, _, _, looped, known => ⟨looped, known⟩
  | .memoize _, _, _, looped, known => ⟨looped, known⟩

theorem linkAll_looped : ∀ (body : List Stmt) (code : Array Function) (inside : Bool),
    Stmt.allLooped inside body → (∀ f ∈ code, Stmt.allLooped false f.body) →
    Stmt.allLooped inside (linkAll body code).1 ∧ ∀ f ∈ (linkAll body code).2, Stmt.allLooped false f.body
  | [], _, _, looped, known => ⟨looped, known⟩
  | s :: rest, code, inside, looped, known => by
    simp only [Stmt.allLooped, Bool.and_eq_true] at looped
    have first := Stmt.link_looped s code inside looped.1 known
    have second := linkAll_looped rest (s.link code).2 inside looped.2 first.2
    refine ⟨?_, second.2⟩
    simp only [linkAll, Stmt.allLooped, Bool.and_eq_true]
    exact ⟨first.1, second.1⟩

end

namespace Session

theorem machine_looped (s : Session) : s.machine.setting.Looped :=
  nofun

theorem execUnder_setting (s : Session) (ev : Evaluators) (m : Machine) (program : List Stmt) :
    (s.execUnder ev m program).2.setting = (m.load program).2.setting := by
  simp only [execUnder, Machine.run]
  split
  · rfl
  · rfl

/-- A program whose signals all stand in loops never ends with the complaint
that one went astray, at top level or in a function, on a host that does not say
so itself, and leaves the machine ready for the next such program. Whatever its
body, no loop hands a signal on. -/
theorem only_stray_signals_stray (s : Session) (m : Machine) (ready : m.setting.Looped) (program : List Stmt)
    (looped : Stmt.allLooped false program) (fuel : Nat) :
    (m.setting.host.Reports (fun f => f.isStray = false) →
      ∀ f, (s.execUnder (evaluators fuel) m program).1 = .error (.fault f) → f.isStray = false) ∧
      (s.execUnder (evaluators fuel) m program).2.setting.Looped ∧
      ∀ loop : Stmt, loop.isLoop → ∀ setting st c last,
        (evaluators fuel).stmt loop setting st = .ok c last → c.signals = false := by
  have linked := linkAll_looped program m.setting.code false looped ready
  refine ⟨fun reports f ended => ?_, ?_, fun loop isLoop setting st c last ran => loop_quiet isLoop ran⟩
  · have known : (m.load program).2.setting.Looped := linked.2
    have silent : (m.load program).2.setting.host.Reports fun f => f.isStray = false := reports
    cases ran : runTop (evaluators fuel) s.language.policy (m.load program).1 (m.load program).2.setting m.state with
    | ok v last =>
      rw [execUnder_ok ran] at ended
      cases ended
    | error h last =>
      rw [execUnder_error ran] at ended
      cases ended
      exact Heeding.runTop_orderly silent known linked.1 fuel s.language.policy ran
  · rw [execUnder_setting]
    exact linked.2

theorem only_stray_signals_stray_called :
    let s : Session := ⟨Language.lumen, {}⟩
    let calling (body : List Stmt) := [Stmt.declare 0 "f" [] body, .expr (.call (.var "f") [])]
    let looped := calling [.endless [.breakLoop]]
    (s.execUnder (evaluators 5) s.machine (calling [.breakLoop])).1 = .error (.fault (.strayIn .breaking "f")) ∧
      (∀ f, (s.execUnder (evaluators 5) s.machine looped).1 = .error (.fault f) → f.isStray = false) ∧
      (s.execUnder (evaluators 5) s.machine looped).1 = .ok .none := by
  intro s calling looped
  have reports := Host.usual_reports ofOperands_orderly s.options.clock
  exact ⟨rfl, (only_stray_signals_stray s s.machine s.machine_looped looped rfl 5).1 reports, rfl⟩

end Session

end ScriptKernel
