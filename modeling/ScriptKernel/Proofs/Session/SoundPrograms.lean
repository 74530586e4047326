import ScriptKernel.Proofs.Lumen.RoundTrip
import ScriptKernel.Proofs.Machine.SideBySide
import ScriptKernel.Proofs.Machine.WholeRuns
import ScriptKernel.Proofs.MiniRust.RoundTrip

/-!
Parsed programs are sound. Every name in a program is one of its language, the
parameters of a function are told apart, a call of the host carries the keys of
its selector, and every operator is one that can be evaluated. So no run of a
parsed program finds an operator invalid.
-/

namespace ScriptKernel

def Dialect.reserved : Dialect → List String
  | .lumen => Lumen.reserved
  | .minirust => MiniRust.reserved

abbrev Handled (result : Except RuntimeFault Value) : Prop :=
  Faults (fun f => f.isInvalidOperator = false) result

def Expr.Sound (reserved : List String) : Expr → Prop
  | .literal v => v.Present
  | .var name => Written.IsName reserved name
  | .hostCall selector keys _ => Selector.parse selector = .ok keys ∧ keys ≠ []
  | .binary op _ _ => ∀ left right, Handled (Lumen.arith op left right)
  | .compare op _ _ => ∀ heap left right, Handled (Lumen.compare heap op left right)
  | .intBinary op _ _ => ∀ left right, Handled (MiniRust.arith op left right)
  | .intCompare op _ _ => ∀ heap left right, Handled (MiniRust.compare heap op left right)
  | _ => True

def Stmt.Sound (reserved : List String) : Stmt → Prop
  | .define name _ | .assign name _ _ | .forEach name _ _ | .setItem name _ _ => Written.IsName reserved name
  | .declare _ name params _ =>
    Written.IsName reserved name ∧ (∀ param ∈ params, Written.IsName reserved param) ∧ params.Nodup
  | _ => True

/-- The statement and all its parts are in order. -/
abbrev Stmt.SoundThroughout (reserved : List String) (s : Stmt) : Prop :=
  s.Every (Expr.Sound reserved) (Stmt.Sound reserved)

theorem ofOperands_handled : OfOperands fun f => f.isInvalidOperator = false :=
  fun _ _ handled => handled

theorem supported_handled : Supported fun f => f.isInvalidOperator = false :=
  fun _ handled => handled

theorem Selector.backends_ne_nil {text : List Char} {names : List String} (parsed : backends text = .ok names) :
    names ≠ [] := by
  unfold backends at parsed
  simp only at parsed
  split at parsed
  · cases parsed
  · split at parsed
    · cases parsed
    · split at parsed
      · cases parsed
      · next some_ =>
        cases parsed
        simpa using some_

theorem Selector.parse_ne_nil {selector : String} {keys : List Key} (parsed : parse selector = .ok keys) :
    keys ≠ [] := by
  unfold parse at parsed
  simp only at parsed
  split at parsed
  · cases parsed
  · split at parsed
    · split at parsed
      · cases parsed
        exact List.cons_ne_nil _ _
      · cases parsed
    · split at parsed
      · cases parsed
      · next before _ _ _ =>
        cases found : backends before with
        | error fault =>
          rw [found] at parsed
          cases parsed
        | ok names =>
          rw [found] at parsed
          cases parsed
          simpa using backends_ne_nil found

namespace Lumen

theorem FormedExpr.sound {x : Expr} (formed : FormedExpr x) : x.Every (Expr.Sound reserved) := by
  induction formed with
  | number plain read => exact .intro nofun (List.forall_mem_nil _)
  | bool b => exact .intro nofun (List.forall_mem_nil _)
  | none => exact .intro nofun (List.forall_mem_nil _)
  | string text => exact .intro nofun (List.forall_mem_nil _)
  | var valid => exact .intro valid (List.forall_mem_nil _)
  | @between op l r known ordinary left right ihLeft ihRight =>
    cases op with
    | pipe => exact absurd rfl ordinary
    | compare op =>
      refine .pair (fun heap => ?_) rfl ihLeft ihRight
      apply compare_faults ofOperands_handled
      rintro symbol rfl
      exact known.elim
    | arith op =>
      refine .pair ?_ rfl ihLeft ihRight
      apply arith_faults ofOperands_handled
      rintro symbol rfl
      exact known.elim
    | range => exact .pair trivial rfl ihLeft ihRight
    | or => exact .pair trivial rfl ihLeft ihRight
    | and => exact .pair trivial rfl ihLeft ihRight
  | pipe left right ihLeft ihRight => exact .intro trivial (List.forall_mem_cons.2 ⟨ihLeft, ihRight.parts⟩)
  | not inner ih => exact .intro trivial (List.forall_mem_singleton.2 ih)
  | negate inner ih => exact .intro trivial (List.forall_mem_singleton.2 ih)
  | call callee each ihCallee ih => exact .intro trivial (List.forall_mem_cons.2 ⟨ihCallee, ih⟩)
  | hostCall parsed each ih => exact .intro ⟨parsed, Selector.parse_ne_nil parsed⟩ ih
  | array each ih => exact .intro trivial ih
  | index left inner ihLeft ihInner => exact .pair trivial rfl ihLeft ihInner

theorem FormedStmt.sound {s : Stmt} (formed : FormedStmt s) : s.SoundThroughout reserved := by
  have one {x : Expr} (formed : FormedExpr x) : ∀ y ∈ [x], y.Every (Expr.Sound reserved) :=
    List.forall_mem_singleton.2 formed.sound
  induction formed with
  | expr formed => exact .intro trivial (one formed) (List.forall_mem_nil _)
  | define valid formed => exact .intro valid (one formed) (List.forall_mem_nil _)
  | assign valid formed => exact .intro valid (one formed) (List.forall_mem_nil _)
  | cond formed then_ else_ ihThen ihElse =>
    exact .intro trivial (one formed) (List.forall_mem_append.2 ⟨ihThen, ihElse⟩)
  | whileLoop formed each negated ih => exact .intro trivial (one formed) ih
  | forEach valid formed each ih => exact .intro valid (one formed) ih
  | breakLoop => exact .intro trivial (List.forall_mem_nil _) (List.forall_mem_nil _)
  | continueLoop => exact .intro trivial (List.forall_mem_nil _) (List.forall_mem_nil _)
  | returnNone => exact .intro trivial (List.forall_mem_nil _) (List.forall_mem_nil _)
  | returnSome formed => exact .intro trivial (one formed) (List.forall_mem_nil _)
  | declare valid names distinct each ih => exact .intro ⟨valid, names, distinct⟩ (List.forall_mem_nil _) ih
  | setItem valid inner formed =>
    exact .intro valid (List.forall_mem_cons.2 ⟨inner.sound, one formed⟩) (List.forall_mem_nil _)
  | push first second =>
    exact .intro trivial (List.forall_mem_cons.2 ⟨first.sound, one second⟩) (List.forall_mem_nil _)
  | memoize on => exact .intro trivial (List.forall_mem_nil _) (List.forall_mem_nil _)

end Lumen

namespace MiniRust

theorem FormedExpr.sound {x : Expr} (formed : FormedExpr x) : x.Every (Expr.Sound reserved) := by
  induction formed with
  | int unsigned => exact .intro nofun (List.forall_mem_nil _)
  | flag b => exact .intro nofun (List.forall_mem_nil _)
  | str text => exact .intro nofun (List.forall_mem_nil _)
  | var valid => exact .intro valid (List.forall_mem_nil _)
  | @between op l r known left right ihLeft ihRight =>
    cases op with
    | compare op =>
      refine .pair (fun heap => ?_) rfl ihLeft ihRight
      apply compare_faults ofOperands_handled
      exact fun symbol same => absurd same (known symbol)
    | arith op =>
      refine .pair ?_ rfl ihLeft ihRight
      apply arith_faults ofOperands_handled
      exact fun unknown => absurd known unknown
    | or => exact .pair trivial rfl ihLeft ihRight
    | and => exact .pair trivial rfl ihLeft ihRight
  | negate inner ih => exact .intro trivial (List.forall_mem_singleton.2 ih)
  | not inner ih => exact .intro trivial (List.forall_mem_singleton.2 ih)
  | call callee each ihCallee ih => exact .intro trivial (List.forall_mem_cons.2 ⟨ihCallee, ih⟩)
  | format each ih => exact .intro trivial ih

theorem output_sound {capability : String} (parsed : Selector.parse capability = .ok [⟨"", capability⟩])
    {x : Expr} (formed : FormedExpr x) : (output capability x).SoundThroughout reserved := by
  refine .intro trivial (List.forall_mem_singleton.2 ?_) (List.forall_mem_nil _)
  exact .intro ⟨parsed, Selector.parse_ne_nil parsed⟩ (List.forall_mem_singleton.2 formed.sound)

theorem FormedStmt.sound {s : Stmt} (formed : FormedStmt s) : s.SoundThroughout reserved := by
  have one {x : Expr} (formed : FormedExpr x) : ∀ y ∈ [x], y.Every (Expr.Sound reserved) :=
    List.forall_mem_singleton.2 formed.sound
  induction formed with
  | expr formed => exact .intro trivial (one formed) (List.forall_mem_nil _)
  | print formed => exact output_sound (by decide) formed
  | write formed filled => exact output_sound (by decide) formed
  | define valid formed => exact .intro valid (one formed) (List.forall_mem_nil _)
  | assign valid formed => exact .intro valid (one formed) (List.forall_mem_nil _)
  | block each ih => exact .intro trivial (List.forall_mem_nil _) ih
  | cond formed yesFormed noFormed ihYes ihNo =>
    exact .intro trivial (one formed) (List.forall_mem_append.2 ⟨ihYes, ihNo⟩)
  | whileLoop formed each ih => exact .intro trivial (one formed) ih
  | endless each ih => exact .intro trivial (List.forall_mem_nil _) ih
  | breakLoop => exact .intro trivial (List.forall_mem_nil _) (List.forall_mem_nil _)
  | continueLoop => exact .intro trivial (List.forall_mem_nil _) (List.forall_mem_nil _)
  | returnNone => exact .intro trivial (List.forall_mem_nil _) (List.forall_mem_nil _)
  | returnSome formed => exact .intro trivial (one formed) (List.forall_mem_nil _)
  | declare valid names distinct each ih => exact .intro ⟨valid, names, distinct⟩ (List.forall_mem_nil _) ih

end MiniRust

namespace Session

variable {s : Session}

theorem parse_sound (listed : s.language ∈ Language.all) {source : List UInt8} {program : List Stmt}
    (parsed : s.parse source = .ok program) :
    ∀ statement ∈ program, statement.SoundThroughout s.language.dialect.reserved := by
  intro statement member
  rcases List.mem_cons.1 listed with lumen | other
  · rw [lumen]
    exact (Lumen.session_formed lumen parsed statement member).sound
  · have minirust := List.mem_singleton.1 other
    rw [minirust]
    exact (MiniRust.session_formed minirust parsed statement member).sound

end Session

theorem Expr.Sound.ready {P : RuntimeFault → Prop} (supported : Supported P) {reserved : List String} {x : Expr}
    (sound : x.Sound reserved) : x.Ready P := by
  cases x with
  | literal v => exact sound
  | binary op left right => exact fun l r f failed => supported f (sound l r f failed)
  | compare op left right => exact fun heap l r f failed => supported f (sound heap l r f failed)
  | intBinary op left right => exact fun l r f failed => supported f (sound l r f failed)
  | intCompare op left right => exact fun heap l r f failed => supported f (sound heap l r f failed)
  | _ => trivial

structure Machine.Ready (P : RuntimeFault → Prop) (m : Machine) : Prop where
  setting : m.setting.Ready P
  state : m.state.Whole

namespace Session

variable {s : Session} {P : RuntimeFault → Prop}

/-- The machines that come of a new one when programs are run on it, one after
the other, whatever becomes of them. -/
inductive Reaches (s : Session) : Machine → Prop
  | fresh : s.Reaches s.machine
  | run {m : Machine} {source : List UInt8} {program : List Stmt} (reached : s.Reaches m)
      (parsed : s.parse source = .ok program) (fuel : Nat) : s.Reaches (s.execUnder (evaluators fuel) m program).2

theorem machine_ready (listed : s.language ∈ Language.all) (sound : s.options.host.Sound)
    (reports : s.options.host.Reports P) : s.machine.Ready P where
  setting := by
    refine ⟨fun f member => absurd member (by simp [machine]), ?_, sound, reports⟩
    show s.language.dialect.empty.Present
    cases s.language.dialect with
    | lumen | minirust =>
      intro absent
      cases absent
  state := by
    refine ⟨?_, fun cell v member => by simp [machine, Heap.items] at member, rfl, ?_⟩
    · show Scopes.Each _ { globals := s.language.globals }
      intro scope member entry inside
      obtain rfl := List.mem_singleton.1 member
      rcases List.mem_cons.1 listed with lumen | other
      · rw [lumen] at inside
        obtain rfl := List.mem_singleton.1 inside
        intro absent
        cases absent
      · rw [List.mem_singleton.1 other] at inside
        exact absurd inside List.not_mem_nil
    · rintro _ label key v ⟨⟩ held
      cases memoize : s.options.memoize <;> simp [memoize, Memo.enable, Memo.find?] at held

theorem load_ready {m : Machine} (ready : m.Ready P) {program : List Stmt}
    (uses : ∀ statement ∈ program, statement.Uses (Expr.Ready P)) :
    (m.load program).2.setting.Ready P ∧ ∀ statement ∈ (m.load program).1, statement.Uses (Expr.Ready P) := by
  have linked := linkAll_uses program m.setting.code uses ready.setting.code
  exact ⟨⟨linked.2, ready.setting.empty, ready.setting.host, ready.setting.reports⟩, linked.1⟩

/-- Running a program that is ready keeps the machine ready, gives a value that
is there, and stops for reasons of the kind only; also under other evaluators
that do the same. -/
theorem execUnder_whole {ev ev' : Evaluators} (supported : Supported P) {m : Machine} (ready : m.Ready P)
    {program : List Stmt} (uses : ∀ statement ∈ program, statement.Uses (Expr.Ready P))
    (agrees : ∀ setting : Setting, setting.Ready P →
      ((whole P setting).correspondence (Whole.code P setting)).Agrees ev ev') :
    SameRun (s.execUnder ev' m program) (s.execUnder ev m program) ∧
      (s.execUnder ev m program).2.Ready P ∧
      (∀ v, (s.execUnder ev m program).1 = .ok v → v.Present) ∧
      ∀ h, (s.execUnder ev m program).1 = .error h → h.Of P := by
  obtain ⟨settings, linked⟩ := load_ready ready uses
  have leads := (Whole.lawful supported settings).program (w := ()) (p := ()) Whole.contains (agrees _ settings)
    (fun _ _ stray => Whole.stops_stray supported stray) s.language.policy (Discipline.body_of_all linked)
  refine ⟨?_, ?_⟩
  · rcases s.execUnder_follows m m rfl rfl rfl rfl ready.state leads with same | ⟨h, -, excuses⟩
    · exact same
    · exact excuses.elim
  · cases ran : runTop ev s.language.policy (m.load program).1 (m.load program).2.setting m.state with
    | ok v last =>
      obtain ⟨_, _, -, -, still, -, present⟩ := leads.of_ok ready.state ran
      rw [execUnder_ok ran]
      refine ⟨⟨settings, still.with_scopes (still.scopes.unwind 1)⟩, ?_, nofun⟩
      rintro v ⟨⟩
      exact present
    | error h last =>
      obtain ⟨_, -, -, still, stops⟩ := leads.of_error (fun _ => id) ready.state ran
      rw [execUnder_error ran]
      refine ⟨⟨settings, still.with_scopes (still.scopes.unwind 1)⟩, nofun, ?_⟩
      rintro h ⟨⟩
      exact stops

theorem parse_uses (supported : Supported P) (listed : s.language ∈ Language.all) {source : List UInt8}
    {program : List Stmt} (parsed : s.parse source = .ok program) :
    ∀ statement ∈ program, statement.Uses (Expr.Ready P) :=
  fun statement member => (parse_sound listed parsed statement member).mono
    (fun _ sound => sound.ready supported) fun _ _ => trivial

theorem Reaches.ready (supported : Supported P) (listed : s.language ∈ Language.all) (sound : s.options.host.Sound)
    (reports : s.options.host.Reports P) {m : Machine} (reached : s.Reaches m) : m.Ready P := by
  induction reached with
  | fresh => exact machine_ready listed sound reports
  | run _ parsed fuel ih =>
    have kept := execUnder_whole (s := s) supported ih (parse_uses supported listed parsed) fun setting ready =>
      Whole.evaluators_agree supported ready fuel
    exact kept.2.1

/-- Parsed programs are sound throughout, and no run of one finds an operator
invalid, also where others have been run before, on a host that makes no gap and
does not say so itself. -/
theorem parsed_programs_sound (listed : s.language ∈ Language.all) {source : List UInt8} {program : List Stmt}
    (parsed : s.parse source = .ok program) :
    (∀ statement ∈ program, statement.SoundThroughout s.language.dialect.reserved) ∧
    (s.options.host.Sound → s.options.host.Reports (fun f => f.isInvalidOperator = false) →
      ∀ m, s.Reaches m → ∀ fuel f,
        (s.execUnder (evaluators fuel) m program).1 = .error (.fault f) → f.isInvalidOperator = false) := by
  refine ⟨parse_sound listed parsed, fun sound reports m reached fuel f stopped => ?_⟩
  have kept := execUnder_whole (s := s) supported_handled (reached.ready supported_handled listed sound reports)
    (parse_uses supported_handled listed parsed) fun setting ready =>
      Whole.evaluators_agree supported_handled ready fuel
  exact kept.2.2.2 _ stopped

theorem parsed_programs_sound_loop :
    let s : Session := ⟨Language.lumen, {}⟩
    let loop := Stmt.whileLoop (.var "a") [.expr (.negate (.var "b"))] false
    s.parse (Text.Utf8.encode "while a:-(b)\n") = .ok [loop] ∧ loop.SoundThroughout Lumen.reserved ∧
      ∀ fuel f, (s.execUnder (evaluators fuel) s.machine [loop]).1 = .error (.fault f) →
        f.isInvalidOperator = false := by
  intro s loop
  have parsed := Lumen.parsed_loop_line
  obtain ⟨every, handled⟩ := parsed_programs_sound (s := s) List.mem_cons_self parsed
  have sound := (Host.usual_modest s.options.clock).sound
  have reports := Host.usual_reports ofOperands_handled s.options.clock
  exact ⟨parsed, every loop (List.mem_singleton.2 rfl), handled sound reports s.machine .fresh⟩

end Session

end ScriptKernel
