import ScriptKernel.Proofs.Machine.Discipline

/-!
Active calls. The machine counts the calls of declared functions that are still
under way. Evaluators that are told, and not by the machine, how many function
bodies are active compare that number with the counter wherever an expression
or a statement begins or ends. They find nothing amiss, so they evaluate
exactly as the others do.
-/

namespace ScriptKernel

def Setting.Admits (setting : Setting) (active : Nat) : Prop :=
  0 < setting.maxCalls → (active : Int) ≤ setting.maxCalls

instance (setting : Setting) (active : Nat) : Decidable (setting.Admits active) :=
  inferInstanceAs (Decidable (_ → _))

theorem Setting.Enters.admits {setting : Setting} {active : Nat} (enters : setting.Enters active) :
    setting.Admits (active + 1) := by
  intro positive
  have shallow : ¬setting.maxCalls ≤ active := fun deep => enters ⟨positive, deep⟩
  omega

/-- The run, which stops for the reason given where before or after it, however
it ends, the counter is not the number of active bodies or that number is past
the bound. -/
def Run.watch {α : Type} (active : Nat) (h : Halt) (run : Run α) : Run α := fun setting st =>
  let last := run.after setting st
  if setting.Admits active ∧ st.calls = active ∧ last.calls = active then run setting st else .error h last

/-- Evaluators that are told how many function bodies are active, those of a
called function of one more, and that watch every expression and statement. -/
def watched (h : Halt) : Nat → Nat → Evaluators
  | 0, _ => evaluators 0
  | fuel + 1, active =>
    let ev := watched h fuel active
    let inside := watched h fuel (active + 1)
    { expr := fun x => Run.watch active h (ev.exprVia inside.invoke ev.host x)
      stmt := fun s => Run.watch active h (ev.evalStmt fuel s) }

def counted (setting : Setting) : Discipline where
  setting := setting
  Place := Nat
  Holds _ active st := st.calls = active
  body active := active + 1

namespace Counted

def code (setting : Setting) (active : Nat) : (counted setting).Code where
  Reads (place : Nat) _ := place = active
  Does (place : Nat) _ := place = active

variable {setting : Setting} {active : Nat}

theorem contains : ((counted setting).correspondence (code setting active)).Contains :=
  Discipline.contains_of_parts (fun here _ => here) (fun here _ => here) id (fun here _ => here) (fun _ => id)
    (fun _ => trivial) fun _ => trivial

theorem kept : (counted setting).Kept (code setting active) where
  refl _ _ := trivial
  trans _ _ := trivial
  change := by
    intro w place st last made count change
    refine ⟨trivial, w, le_rfl, ?_, fun _ _ => trivial⟩
    cases change <;> exact count
  frame := by
    intro w place inside calls bindings st opens count _
    have total : st.calls = place := count
    rcases opens with ⟨s, -, rfl, rfl⟩ | ⟨rfl, rfl⟩
    · exact ⟨total, fun _ _ _ behind _ => ⟨behind, trivial⟩⟩
    · refine ⟨congrArg (· + 1) total, fun v last _ behind _ => ⟨?_, trivial⟩⟩
      exact congrArg Nat.pred (show last.calls = Nat.succ place from behind)
  store _ _ _ count _ _ := ⟨count, trivial⟩
  call := Iff.rfl
  called := id

theorem lawful : (counted setting).Lawful (code setting active) :=
  kept.lawful rfl (fun _ _ => trivial) fun _ => trivial

theorem watch {α : Type} {w : (counted setting).World} {R : (counted setting).World → α → α → Prop} {run run' : Run α}
    (leads : (counted setting).Leads w active R run run') (admits : setting.Admits active) (h : Halt) :
    (counted setting).Leads w active R run (Run.watch active h run') := by
  intro u le st count
  have total : st.calls = active := count
  have ends := leads u le st count
  unfold Run.watch Run.after
  generalize run (counted setting).setting st = result, run' (counted setting).setting' st = result' at ends
  cases ends with
  | excused excuses => exact excuses.elim
  | ok moves further behind related =>
    dsimp only
    rw [if_pos ⟨admits, total, behind⟩]
    exact .ok moves further behind related
  | error moves further behind stops =>
    dsimp only
    rw [if_pos ⟨admits, total, behind⟩]
    exact .error moves further behind stops

theorem watched_agree (h : Halt) (fuel : Nat) (admits : setting.Admits active) :
    ((counted setting).correspondence (code setting active)).Agrees (evaluators fuel) (watched h fuel active) := by
  induction fuel generalizing active with
  | zero => exact lawful.exhausted
  | succ fuel ih =>
    have here := ih admits
    have law : (counted setting).Lawful (code setting active) := lawful
    refine ⟨fun w place x reads => ?_, fun w place s does => Discipline.runs_iff.2 ?_⟩
    · obtain rfl : active = place := Eq.symm reads
      refine watch ?_ admits h
      change (counted setting).Leads w active _ ((evaluators fuel).evalExpr x) _
      rw [← Evaluators.exprVia_self]
      refine here.exprVia (w := w) (law.closed contains) ?invokes ?hosts reads
      case invokes =>
        rintro v f _ as bs ⟨rfl, function⟩ values
        obtain ⟨rfl, good⟩ := Discipline.same_values values
        refine Discipline.Leads.invoke law function good fun label f known u st _ count enters => ?_
        have room : setting.Admits (active + 1) := by
          rw [← show st.calls = active from count]
          exact enters.admits
        exact (ih room).functionBody (lawful.closed contains) lawful.strays f.name (Discipline.body_of_all fun _ _ => rfl)
      case hosts =>
        rintro selector keys args rfl
        exact Discipline.Leads.host law rfl (here.all (law.closed contains) fun _ _ => rfl) selector
    · obtain rfl : active = place := Eq.symm does
      exact watch (Discipline.runs_iff.1 (law.stmt contains here does)) admits h

end Counted

end ScriptKernel
