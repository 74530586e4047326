import ScriptKernel.Proofs.Capability.Removal
import ScriptKernel.Proofs.Machine.Hosts
import ScriptKernel.Proofs.Machine.SideBySide

/-!
Denied capabilities. That a run calls no capability of some kind is put as an
experiment: a run that would stop, for whatever reason, where the keys of a call
find such a capability, and again where the host is about to perform it, is the
run itself. A session stands this test for all that it denies; and where the
session without its deny list stands it, the list makes no difference.
-/

namespace ScriptKernel

/-- The keys of a call of the host find a barred one. -/
def trips (bar : Key → Bool) (setting : Setting) (keys : List Key) : Bool :=
  (setting.capabilities.bind (·.first? keys)).any fun found => bar found.1

/-- Stops at a call of the host that finds a barred key. -/
def tripwire (bar : Key → Bool) (h : Halt) : Expr → Run Unit
  | .hostCall _ keys _ => fun setting st => if trips bar setting keys then .error h st else .ok () st
  | _ => pure ()

def performUnbarred (bar : Key → Bool) (h : Halt) (key : Key) (capability : Capability) (args : List Value) : Run Value :=
  if bar key then Run.halt h else Run.perform capability args

/-- The evaluators with a tripwire before every expression, and at every call of
the host itself. -/
def barred (bar : Key → Bool) (h : Halt) : Nat → Evaluators
  | 0 => evaluators 0
  | fuel + 1 =>
    let ev := barred bar h fuel
    { expr := fun x => tripwire bar h x >>= fun _ => ev.exprVia ev.invoke (ev.hostVia (performUnbarred bar h)) x
      stmt := fun s => ev.evalStmt fuel s }

section

variable {bar : Key → Bool} {h : Halt} {setting : Setting} {selector : String} {keys : List Key} {args : List Expr}

theorem tripwire_host (st : State) : tripwire bar h (.hostCall selector keys args) setting st =
    if trips bar setting keys then .error h st else .ok () st :=
  rfl

theorem tripwire_other {x : Expr} (other : ∀ selector keys args, x ≠ .hostCall selector keys args) :
    tripwire bar h x = pure () := by
  cases x with
  | hostCall selector keys args => exact absurd rfl (other selector keys args)
  | _ => rfl

theorem not_barred_of_found {key : Key} {capability : Capability} (passes : trips bar setting keys = false)
    (found : setting.capabilities.bind (·.first? keys) = some (key, capability)) : bar key = false := by
  rwa [trips, found] at passes

end

/-- The keys of a call trip no wire in the first setting, unless that is excused,
and find the same in the second one. -/
def Unbarred (bar : Key → Bool) (h : Halt) (excuses : Halt → Prop) (setting setting' : Setting) (keys : List Key) : Prop :=
  (trips bar setting keys = true ∧ excuses h) ∨ trips bar setting keys = false ∧
    setting'.capabilities.bind (·.first? keys) = setting.capabilities.bind (·.first? keys)

namespace Beside

variable {setting setting' : Setting} {excuses : Halt → Prop} {bar : Key → Bool} {h : Halt}

theorem host_leads (fair : (beside setting setting' excuses).Fair) {ev ev' : Evaluators} {args : List Expr}
    {keys : List Key} (unbarred : Unbarred bar h excuses setting setting' keys) (selector : String)
    (all : (beside setting setting' excuses).Leads () ()
      (fun v => List.Forall₂ ((beside setting setting' excuses).Same v)) (ev.all args) (ev'.all args)) :
    (beside setting setting' excuses).Leads () () (beside setting setting' excuses).Same
      (tripwire bar h (.hostCall selector keys args) >>= fun _ => ev.hostVia (performUnbarred bar h) selector keys args)
      (pure () >>= fun _ => ev'.host selector keys args) := by
  have law := lawful fair
  rcases unbarred with ⟨trip, excused⟩ | ⟨passes, same⟩
  · refine .excused excused fun st => ⟨st, Run.bind_error _ ?_⟩
    exact if_pos trip
  · have through : (beside setting setting' excuses).Leads () () (fun _ _ _ => True)
        (tripwire bar h (.hostCall selector keys args)) (pure ()) := by
      intro u le st here
      have passed : tripwire bar h (.hostCall selector keys args) setting st = .ok () st := by
        rw [tripwire_host, passes]
        rfl
      rw [show tripwire bar h _ (beside setting setting' excuses).setting st = _ from passed]
      exact .ok trivial le_rfl trivial trivial
    refine .bind law through fun _ _ _ _ _ => ?_
    rw [← Evaluators.hostVia_self]
    refine .hostVia law same all (fun key capability v vs found good => ?_) selector
    rw [performUnbarred, not_barred_of_found passes found]
    exact .perform law ⟨keys, key, found⟩ good

theorem barred_agree (fair : (beside setting setting' excuses).Fair)
    (unbarred : ∀ keys, Unbarred bar h excuses setting setting' keys) (fuel : Nat) :
    ((beside setting setting' excuses).correspondence {}).Agrees (barred bar h fuel) (evaluators fuel) := by
  have law := lawful fair
  induction fuel with
  | zero => exact law.exhausted
  | succ fuel ih =>
    refine ⟨fun _ _ x reads => ?_, fun _ _ s does => law.stmt Discipline.contains_all ih does⟩
    change (beside setting setting' excuses).Leads _ _ _ (tripwire bar h x >>= fun _ => _)
      (pure () >>= fun _ => (evaluators fuel).evalExpr x)
    by_cases calls : ∃ selector keys args, x = .hostCall selector keys args
    · obtain ⟨selector, keys, args, rfl⟩ := calls
      exact host_leads fair (unbarred keys) selector (ih.all (closed fair) fun _ _ => trivial)
    · have other (selector : String) (keys : List Key) (args : List Expr) : x ≠ .hostCall selector keys args :=
        fun same => calls ⟨selector, keys, args, same⟩
      rw [tripwire_other other]
      refine .bind law (.pure (R := fun _ _ _ => True) law fun _ _ => trivial) fun _ _ _ _ _ => ?_
      rw [← Evaluators.exprVia_self]
      exact law.exprVia Discipline.contains_all Discipline.functions_all ih reads fun selector keys args same =>
        absurd same (other selector keys args)

end Beside

def silent (setting : Setting) : Discipline where
  setting := setting
  Moves _ st last := last.console.out = st.console.out

namespace Silent

variable {setting : Setting}

theorem kept (quiet : ∀ capability heap args console, setting.Offers capability →
    (setting.host capability heap args console).1.2.out = console.out) : (silent setting).Kept {} where
  refl _ _ := rfl
  trans first second := Eq.trans second first
  change := by
    intro w p st last made _ change
    refine ⟨?_, w, le_rfl, trivial, fun _ _ => trivial⟩
    cases change with
    | @answer capability args heap console _ offered _ asked | @refusal capability args heap console _ offered _ asked =>
      have left := quiet capability st.heap args st.console.called offered
      rwa [show setting.host capability st.heap args _ = _ from asked] at left
    | _ => rfl
  frame _ _ _ := ⟨trivial, fun _ _ _ _ moves => ⟨trivial, moves⟩⟩
  store _ _ _ _ moves _ := ⟨trivial, moves⟩
  call := Iff.rfl
  called := id

end Silent

/-- What is built in and neither prints nor writes leaves the output alone. -/
def Host.Quiet (host : Host) : Prop :=
  ∀ action dialect broken heap args console, action ≠ .print → action ≠ .write →
    (host (.builtin action dialect broken) heap args console).1.2.out = console.out

theorem Host.usual_quiet (clock : Clock) : (usual clock).Quiet := by
  intro action dialect broken heap args console printless writeless
  simp only [usual, Capability.perform]
  split
  · rfl
  · cases action with
    | print => exact absurd rfl printless
    | write => exact absurd rfl writeless
    | _ => rfl

namespace Session

def withDeny (s : Session) (selectors : List String) : Session :=
  { s with options := { s.options with deny := selectors } }

variable {s : Session}

theorem exists_other_halt (outcome : Except Halt Value) : ∃ h, outcome ≠ .error h := by
  by_cases missing : outcome = .error .missing
  · refine ⟨.outOfFuel, ?_⟩
    rw [missing]
    intro same
    cases same
  · exact ⟨.missing, missing⟩

theorem trips_denied (s : Session) (setting : Setting) (host : setting.capabilities = some s.capabilities)
    (keys : List Key) : trips (denies s.options.deny) setting keys = false := by
  unfold trips
  rw [host]
  cases found : (some s.capabilities).bind (·.first? keys) with
  | none => rfl
  | some entry => exact Registry.first?_deny found

theorem execUnder_barred (s : Session) (program : List Stmt) (fuel : Nat) (h : Halt) :
    SameRun (s.execUnder (barred (denies s.options.deny) h fuel) s.machine program)
      (s.execUnder (evaluators fuel) s.machine program) := by
  let setting := (s.machine.load program).2.setting
  have fair : (beside setting setting fun _ => False).Fair := .of_same rfl
  have unbarred (keys : List Key) : Unbarred (denies s.options.deny) h (fun _ => False) setting setting keys :=
    Or.inr ⟨s.trips_denied setting rfl keys, rfl⟩
  have agrees := Beside.barred_agree fair unbarred fuel
  rcases s.execUnder_beside s.machine s.machine rfl rfl fair agrees with same | ⟨_, -, excused⟩
  · exact ⟨same.1.symm, same.2.symm⟩
  · exact excused.elim

theorem offers_quiet (s : Session) (own : s.options.recorded = [])
    (print : denies s.options.deny Builtin.print.key = true) (write : denies s.options.deny Builtin.write.key = true)
    {setting : Setting} (capabilities : setting.capabilities = some s.capabilities) {capability : Capability}
    (offered : setting.Offers capability) :
    ∃ action, capability = .builtin action s.language.dialect none ∧ action ≠ .print ∧ action ≠ .write := by
  have builtIn : s.capabilities.BuiltIn s.language.dialect none := by
    rw [Session.capabilities, own, List.foldl_nil]
    exact (Registry.builtIn_withBuiltins s.language.dialect true true none).deny s.options.deny
  obtain ⟨keys, key, found⟩ := offered
  have found : s.capabilities.first? keys = some (key, capability) := by
    rw [capabilities] at found
    exact found
  have allowed : denies s.options.deny key = false := Registry.first?_deny found
  obtain ⟨action, rfl, rfl⟩ := builtIn key capability (Registry.find?_of_first? found)
  refine ⟨action, rfl, ?_, ?_⟩
  · rintro rfl
    rw [print] at allowed
    cases allowed
  · rintro rfl
    rw [write] at allowed
    cases allowed

theorem execUnder_silent (s : Session) (program : List Stmt) (fuel : Nat) (quiet : s.options.host.Quiet)
    (own : s.options.recorded = []) (print : denies s.options.deny Builtin.print.key = true)
    (write : denies s.options.deny Builtin.write.key = true) :
    (s.execUnder (evaluators fuel) s.machine program).2.state.console.out = "" := by
  let setting := (s.machine.load program).2.setting
  have kept : (silent setting).Kept {} := Silent.kept fun capability heap args console offered => by
    have registered : setting.capabilities = some s.capabilities := rfl
    obtain ⟨action, rfl, printless, writeless⟩ := s.offers_quiet own print write registered offered
    exact quiet action _ none heap args console printless writeless
  have law := kept.lawful rfl (fun _ _ => trivial) fun _ => trivial
  have agrees := law.evaluators Discipline.contains_all Discipline.functions_all rfl fuel
  have stand : ((silent setting).correspondence {}).Body () (s.machine.load program).1 :=
    Discipline.body_of_all fun _ _ => trivial
  have leads := law.program (w := ()) Discipline.contains_all agrees (fun _ _ _ => trivial) s.language.policy stand
  cases ran : runTop (evaluators fuel) s.language.policy (s.machine.load program).1 setting s.machine.state with
  | ok v last =>
    obtain ⟨_, _, -, moves, -⟩ := leads.of_ok trivial ran
    rw [execUnder_ok ran]
    exact moves
  | error h last =>
    obtain ⟨_, -, moves, -⟩ := leads.of_error (fun _ => id) trivial ran
    rw [execUnder_error ran]
    exact moves

theorem execUnder_free (s : Session) (program : List Stmt) (fuel : Nat)
    (uncalled : ∀ h, SameRun
      ((s.withDeny []).execUnder (barred (denies s.options.deny) h fuel) (s.withDeny []).machine program)
      ((s.withDeny []).execUnder (evaluators fuel) (s.withDeny []).machine program)) :
    SameRun (s.execUnder (evaluators fuel) s.machine program)
      ((s.withDeny []).execUnder (evaluators fuel) (s.withDeny []).machine program) := by
  obtain ⟨h, other⟩ :=
    exists_other_halt ((s.withDeny []).execUnder (evaluators fuel) (s.withDeny []).machine program).1
  let free := ((s.withDeny []).machine.load program).2.setting
  let setting := (s.machine.load program).2.setting
  have fair : (beside free setting (· = h)).Fair := ⟨rfl, rfl, rfl, fun _ => Or.inl rfl, Or.inl rfl⟩
  have unbarred (keys : List Key) : Unbarred (denies s.options.deny) h (· = h) free setting keys := by
    cases trip : trips (denies s.options.deny) free keys with
    | true => exact Or.inl ⟨trip, rfl⟩
    | false =>
      refine Or.inr ⟨trip, Registry.first?_deny_eq fun key capability found => ?_⟩
      exact not_barred_of_found trip found
  have agrees := Beside.barred_agree fair unbarred fuel
  rcases (s.withDeny []).execUnder_beside (s.withDeny []).machine s.machine rfl rfl fair agrees with same | ⟨_, stopped, rfl⟩
  · exact ⟨same.1.trans (uncalled h).1, same.2.trans (uncalled h).2⟩
  · exact absurd ((uncalled _).1.symm.trans stopped) other

/-- Denying confines every program. No denied capability is found or performed, so
without printing and writing a quiet host puts nothing out; and a program that
calls none anyway runs as it does without the list. -/
theorem deny_confines (s : Session) (program : List Stmt) (fuel : Nat) :
    let denied := denies s.options.deny
    let free := s.withDeny []
    let run := s.execUnder (evaluators fuel) s.machine program
    let freely := free.execUnder (evaluators fuel) free.machine program
    (∀ h, SameRun (s.execUnder (barred denied h fuel) s.machine program) run) ∧
    (s.options.host.Quiet → s.options.recorded = [] → denied Builtin.print.key = true →
      denied Builtin.write.key = true → run.2.state.console.out = "") ∧
    ((∀ h, SameRun (free.execUnder (barred denied h fuel) free.machine program) freely) →
      SameRun run freely) := by
  intro denied free run freely
  exact ⟨execUnder_barred s program fuel, execUnder_silent s program fuel, execUnder_free s program fuel⟩

theorem deny_confines_print :
    let s : Session := ⟨Language.minirust, { deny := ["print_native", "write_native"] }⟩
    let free := s.withDeny []
    let printing := [Stmt.expr (.hostCall "print_native" [Builtin.print.key] [.literal (.str "a")])]
    let silent := [Stmt.expr (.intNegate (.literal (.int 1)))]
    (free.execUnder (evaluators 3) free.machine printing).2.state.console.out = "a\n" ∧
      (s.execUnder (evaluators 3) s.machine printing).2.state.console.out = "" ∧
      SameRun (s.execUnder (evaluators 3) s.machine silent) (free.execUnder (evaluators 3) free.machine silent) := by
  intro s free printing silent
  have uncalled : ∀ h, SameRun (free.execUnder (barred (denies s.options.deny) h 3) free.machine silent)
      (free.execUnder (evaluators 3) free.machine silent) := fun h => ⟨rfl, rfl⟩
  refine ⟨by decide +kernel, ?_, ?_⟩
  · exact (deny_confines s printing 3).2.1 (Host.usual_quiet _) rfl (by decide +kernel) (by decide +kernel)
  · exact (deny_confines s silent 3).2.2 uncalled

end Session

end ScriptKernel
