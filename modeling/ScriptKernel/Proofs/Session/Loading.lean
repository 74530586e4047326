import ScriptKernel.Proofs.Machine.Confined
import ScriptKernel.Proofs.Machine.ProgramParts
import ScriptKernel.Proofs.Machine.SideBySide
import ScriptKernel.Proofs.Machine.TwoRuns

/-!
Programs that declare their functions at top level. Loading one leaves it as it
is but for the labels of the declarations, which find the functions in the order
of the program. What such a program gives is compared with the cache and without
it.
-/

namespace ScriptKernel

section

variable {C : Stmt → Prop}

mutual

theorem Stmt.link_of_closed (declares : ∀ label name params body, ¬C (.declare label name params body))
    (closed : ∀ s, C s → ∀ part ∈ s.parts, C part) : ∀ (s : Stmt) (code : Array Function), C s → s.link code = (s, code)
  | .block body, code, holds => by
    simp only [Stmt.link, linkAll_of_closed declares closed body code (closed _ holds)]
  | .cond test yes no, code, holds => by
    have parts := List.forall_mem_append.1 (closed _ holds)
    simp only [Stmt.link, linkAll_of_closed declares closed yes code parts.1,
      linkAll_of_closed declares closed no code parts.2]
  | .whileLoop test body negated, code, holds => by
    simp only [Stmt.link, linkAll_of_closed declares closed body code (closed _ holds)]
  | .endless body, code, holds => by
    simp only [Stmt.link, linkAll_of_closed declares closed body code (closed _ holds)]
  | .forEach name items body, code, holds => by
    simp only [Stmt.link, linkAll_of_closed declares closed body code (closed _ holds)]
  | .declare _ _ _ _, _, holds => absurd holds (declares _ _ _ _)
  | .expr _, _, _ => rfl
  | .define _ _, _, _ => rfl
  | .assign _ _ _, _, _ => rfl
  | .breakLoop, _, _ => rfl
  | .continueLoop, _, _ => rfl
  | .returnWith _, _, _ => rfl
  | .setItem _ _ _, _, _ => rfl
  | .push _ _, _, _ => rfl
  | .memoize _, _, _ => rfl

theorem linkAll_of_closed (declares : ∀ label name params body, ¬C (.declare label name params body))
    (closed : ∀ s, C s → ∀ part ∈ s.parts, C part) : ∀ (body : List Stmt) (code : Array Function),
    (∀ s ∈ body, C s) → linkAll body code = (body, code)
  | [], _, _ => rfl
  | s :: rest, code, holds => by
    rw [List.forall_mem_cons] at holds
    simp only [linkAll, Stmt.link_of_closed declares closed s code holds.1,
      linkAll_of_closed declares closed rest code holds.2]

end

end

/-- Loading leaves the statement as it is, or all but its label. -/
def Stmt.LinksAlone : Stmt → Prop
  | .declare _ _ _ body => ∀ code, linkAll body code = (body, code)
  | s => ∀ code, s.link code = (s, code)

/-- A statement of a loaded program: a declaration of the function under its
label, or a statement of the program. -/
def Stmt.Loaded (program : List Stmt) (code : Array Function) : Stmt → Prop
  | .declare label name params body => code[label]? = some ⟨name, params, body⟩
  | s => s ∈ program

theorem Stmt.Loaded.of_cons {s t : Stmt} {program : List Stmt} {code : Array Function}
    (loaded : t.Loaded program code) : t.Loaded (s :: program) code := by
  cases t with
  | declare label name params body => exact loaded
  | _ => exact List.mem_cons_of_mem s loaded

theorem Stmt.LinksAlone.link {s : Stmt} (alone : s.LinksAlone)
    (other : ¬∃ label name params body, s = .declare label name params body) (code : Array Function) :
    s.link code = (s, code) := by
  cases s with
  | declare label name params body => exact absurd ⟨label, name, params, body, rfl⟩ other
  | _ => exact alone code

theorem Stmt.Loaded.of_mem {s : Stmt} {program : List Stmt} {code : Array Function}
    (other : ¬∃ label name params body, s = .declare label name params body) (member : s ∈ program) :
    s.Loaded program code := by
  cases s with
  | declare label name params body => exact absurd ⟨label, name, params, body, rfl⟩ other
  | _ => exact member

theorem declaredFunctions_cons_other {s : Stmt} {rest : List Stmt}
    (other : ¬∃ label name params body, s = .declare label name params body) :
    declaredFunctions (s :: rest) = declaredFunctions rest := by
  cases s with
  | declare label name params body => exact absurd ⟨label, name, params, body, rfl⟩ other
  | _ => rfl

theorem linkAll_program {program : List Stmt} (alone : ∀ s ∈ program, s.LinksAlone) (code : Array Function) :
    (linkAll program code).2.toList = code.toList ++ declaredFunctions program ∧
      declaredFunctions (linkAll program code).1 = declaredFunctions program ∧
      ∀ s ∈ (linkAll program code).1, s.Loaded program (linkAll program code).2 := by
  induction program generalizing code with
  | nil => exact ⟨(List.append_nil _).symm, rfl, nofun⟩
  | cons s rest ih =>
    rw [List.forall_mem_cons] at alone
    by_cases declares : ∃ label name params body, s = .declare label name params body
    · obtain ⟨label, name, params, body, rfl⟩ := declares
      obtain ⟨listed, same, loaded⟩ := ih alone.2 (code.push ⟨name, params, body⟩)
      have inside : linkAll body code = (body, code) := alone.1 code
      simp only [linkAll, Stmt.link, inside]
      refine ⟨?_, ?_, List.forall_mem_cons.2 ⟨?_, fun t member => (loaded t member).of_cons⟩⟩
      · simp [listed, declaredFunctions]
      · simpa [declaredFunctions] using same
      · simp only [Stmt.Loaded]
        rw [← Array.getElem?_toList, listed]
        simp
    · obtain ⟨listed, same, loaded⟩ := ih alone.2 code
      simp only [linkAll, alone.1.link declares code, declaredFunctions_cons_other declares]
      have here : s.Loaded (s :: rest) (linkAll rest code).2 := .of_mem declares List.mem_cons_self
      exact ⟨listed, same, List.forall_mem_cons.2 ⟨here, fun t member => (loaded t member).of_cons⟩⟩

theorem mem_declaredFunctions {program : List Stmt} (alone : ∀ s ∈ program, s.LinksAlone) {label : Nat} {f : Function}
    (known : (linkAll program #[]).2[label]? = some f) : (declaredFunctions program)[label]? = some f := by
  rwa [← Array.getElem?_toList, (linkAll_program alone #[]).1] at known

theorem declares_of_mem {program : List Stmt} {f : Function} (member : f ∈ declaredFunctions program) :
    ∃ label, .declare label f.name f.params f.body ∈ program := by
  obtain ⟨s, inside, found⟩ := List.mem_filterMap.1 member
  cases s with
  | declare label name params body =>
    cases found
    exact ⟨label, inside⟩
  | _ => cases found

def Session.memoizing (s : Session) (on : Bool) : Session :=
  { s with options := { s.options with memoize := on } }

def Session.runLoaded (s : Session) (ev : Evaluators) (program : List Stmt) (on : Bool) :
    EStateM.Result Halt State Value :=
  runTop ev s.language.policy (linkAll program #[]).1 { s.machine.setting with code := (linkAll program #[]).2 }
    { s.machine.state with memo := some (({} : Memo).enable on) }

theorem execUnder_memoizing (s : Session) (ev : Evaluators) (program : List Stmt) (on : Bool) :
    let run := s.runLoaded ev program on
    let shown := (s.memoizing on).execUnder ev (s.memoizing on).machine program
    match run with
    | .ok v last => shown.1 = .ok v ∧ shown.2.state.heap = last.heap ∧ shown.2.console = last.console
    | .error h last => shown.1 = .error h ∧ shown.2.console = last.console := by
  intro run shown
  have ran : shown = Machine.run ((s.memoizing on).machine.load program).2
      (runUnder ev s.language.policy (linkAll program #[]).1) := rfl
  have unfolded : runUnder ev s.language.policy (linkAll program #[]).1
      ((s.memoizing on).machine.load program).2.setting ((s.memoizing on).machine.load program).2.state =
      match run with
      | .ok v st => .ok v { st with scopes := st.scopes.unwind 1 }
      | .error h st => .error h { st with scopes := st.scopes.unwind 1 } := rfl
  rw [ran, Machine.run, unfolded]
  cases run with
  | ok v last => exact ⟨rfl, rfl, rfl⟩
  | error h last => exact ⟨rfl, rfl⟩

/-- Whether a run ended: with a value, or for another reason than a want of
fuel or of active calls. -/
def Ended (outcome : Except Halt Value) : Prop :=
  ∀ h, outcome = .error h → ¬h.IsExhaustion

/-- The outcomes are the same failure, or values that the relation holds of. -/
def SameUpTo (R : Heap → Heap → Value → Value → Prop) (run run' : Except Halt Value × Machine) : Prop :=
  match run.1, run'.1 with
  | .ok v, .ok w => R run.2.state.heap run'.2.state.heap v w
  | .error h, .error h' => h' = h
  | _, _ => False

theorem SameUpTo.eq {run run' : Except Halt Value × Machine} (same : SameUpTo (fun _ _ v w => v = w) run run') :
    run'.1 = run.1 := by
  unfold SameUpTo at same
  split at same
  next v w outcome outcome' => rw [outcome, outcome', same]
  next h h' outcome outcome' => rw [outcome, outcome', same]
  next => exact same.elim

theorem execUnder_concurs {s : Session} {ev ev' : Evaluators} {program : List Stmt}
    {R : Heap → Heap → Value → Value → Prop}
    (concur : Concur .lockstep (fun v last w last' => R last.heap last'.heap v w ∧ last'.console = last.console)
      (s.runLoaded ev program false) (s.runLoaded ev' program true)) :
    let run := (s.memoizing false).execUnder ev (s.memoizing false).machine program
    let kept := (s.memoizing true).execUnder ev' (s.memoizing true).machine program
    Ended run.1 → SameUpTo R run kept ∧ kept.2.console = run.2.console := by
  intro run kept ended
  have first := execUnder_memoizing s ev program false
  have second := execUnder_memoizing s ev' program true
  dsimp only at first second
  cases ran : s.runLoaded ev program false with
  | ok v last =>
    cases ran' : s.runLoaded ev' program true with
    | ok w last' =>
      rw [ran, ran'] at concur
      rw [ran] at first
      rw [ran'] at second
      obtain ⟨shown, heap, console⟩ := first
      obtain ⟨shown', heap', console'⟩ := second
      rw [SameUpTo, shown, shown', heap, heap', console, console']
      exact concur
    | error h last' =>
      rw [ran, ran'] at concur
      cases concur.1
  | error h last =>
    rw [ran] at first
    have lasting : ¬h.IsExhaustion := ended h first.1
    cases ran' : s.runLoaded ev' program true with
    | ok w last' =>
      rw [ran, ran'] at concur
      rcases concur with exhausted | apart
      · exact absurd exhausted lasting
      · cases apart
    | error h' last' =>
      rw [ran, ran'] at concur
      rw [ran'] at second
      rcases concur with exhausted | apart | ⟨same, console⟩
      · exact absurd exhausted lasting
      · cases apart
      · rw [SameUpTo, first.1, second.1, first.2, second.2]
        exact ⟨same, console⟩

end ScriptKernel
