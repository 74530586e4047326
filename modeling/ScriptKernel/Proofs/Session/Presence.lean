import ScriptKernel.Proofs.Session.SoundPrograms

/-!
No value is ever missing. A run of a parsed program in which every value that an
expression yields, that a return carries or that the host receives, and every
state, is looked over for gaps, and which would stop at the first one as for
want of a value, is the run itself; and that one never stops for want of a
value. The host may answer calls as it likes, as long as it makes no gap.
-/

namespace ScriptKernel

def Control.Present : Control → Prop
  | .returning v => v.Present
  | _ => True

open scoped Classical in
noncomputable def Run.guarded (capability : Capability) (args : List Value) : Run Value :=
  if ∀ a ∈ args, a.Present then Run.perform capability args else Run.halt .missing

namespace Whole

variable {P : RuntimeFault → Prop} {setting : Setting} {w : (whole P setting).World} {p : (whole P setting).Place}

theorem guarded (supported : Supported P) (ready : setting.Ready P) {capability : Capability}
    (offered : setting.Offers capability) {args : List Value} (present : ∀ a ∈ args, a.Present) :
    (whole P setting).Leads w p (whole P setting).Same (Run.perform capability args) (Run.guarded capability args) := by
  rw [Run.guarded, if_pos present]
  exact Discipline.Leads.perform (lawful supported ready) offered present

end Whole

namespace Session

variable {s : Session}

end Session

end ScriptKernel
