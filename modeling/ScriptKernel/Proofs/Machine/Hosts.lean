import ScriptKernel.Proofs.Machine.OperationFaults
import ScriptKernel.Proofs.Value.Copies

/-!
What hosts may be relied on for. A host says itself what a call of a capability
comes to; here stand the terms that runs put to it, and that the usual host keeps
them all.
-/

namespace ScriptKernel

theorem Dialect.text_plain (dialect : Dialect) (s : String) : (dialect.text s).Plain := by
  cases dialect <;> trivial

theorem Dialect.whole_plain (dialect : Dialect) (n : Int) : (dialect.whole n).Plain := by
  cases dialect <;> trivial

def Value.Present (v : Value) : Prop :=
  v ≠ .absent

theorem Value.Plain.present {v : Value} (plain : v.Plain) : v.Present := by
  rintro rfl
  exact plain

theorem Value.present_array (cell : Nat) : (array cell).Present :=
  nofun

namespace Capability

variable {clock : Clock} {heap : Heap} {console : Console}

theorem emit_value {name text : String} {broken : Option String} {given v : Value}
    (result : (emit name broken text given console).2 = .ok v) : v = given := by
  unfold emit at result
  split at result
  · cases result
  · cases result
    rfl

theorem act_value {action : Builtin} {dialect : Dialect} {broken : Option String} {given v : Value}
    (result : (act clock heap action dialect broken given console).2 = .ok v) :
    (v = given ∧ action.arity = 1) ∨ v.Plain := by
  unfold act at result
  cases action with
  | print => exact Or.inl ⟨emit_value result, rfl⟩
  | write => exact Or.inl ⟨emit_value result, rfl⟩
  | debugInfo | debugDump =>
    cases result
    exact Or.inl ⟨rfl, rfl⟩
  | valueKind | now | formatTime =>
    cases result
    exact Or.inr (dialect.text_plain _)
  | unixTime =>
    cases result
    exact Or.inr (dialect.whole_plain _)

theorem perform_value {capability : Capability} {args : List Value} {v : Value}
    (result : (capability.perform clock heap args console).2 = .ok v) : v ∈ args ∨ v.Plain := by
  unfold perform at result
  split at result
  next action dialect broken =>
    split at result
    next => cases result
    next arity =>
      rcases act_value result with ⟨rfl, one⟩ | flat
      · cases args with
        | nil => exact absurd one (fun one => arity (one ▸ Nat.zero_ne_one))
        | cons a rest => exact Or.inl List.mem_cons_self
      · exact Or.inr flat
  next label fails dialect =>
    dsimp only at result
    split at result
    · cases result
    · cases result
      cases args with
      | nil => exact Or.inr (dialect.text_plain "ok")
      | cons a rest => exact Or.inl List.mem_cons_self

end Capability

namespace Host

def Reports (host : Host) (P : RuntimeFault → Prop) : Prop :=
  ∀ capability heap args console, Faults P (host capability heap args console).2

def Spares (host : Host) : Prop :=
  ∀ capability heap args console, (host capability heap args console).1.1 = heap

structure Modest (host : Host) : Prop where
  heap : host.Spares
  value : ∀ {capability heap args console v}, (host capability heap args console).2 = .ok v → v ∈ args ∨ v.Plain

/-- The host makes no gap: without one in the arguments and the heap there is none
in the result and the heap that it leaves. -/
def Sound (host : Host) : Prop :=
  ∀ capability (heap : Heap) args console, heap.Each Value.Present → (∀ a ∈ args, a.Present) →
    (host capability heap args console).1.1.Each Value.Present ∧
      ∀ v, (host capability heap args console).2 = .ok v → v.Present

theorem Modest.sound {host : Host} (modest : host.Modest) : host.Sound := by
  intro capability heap args console each present
  refine ⟨(modest.heap capability heap args console).symm ▸ each, fun v result => ?_⟩
  rcases modest.value result with given | plain
  · exact present v given
  · exact plain.present

theorem reports_any (host : Host) : host.Reports fun _ => True :=
  fun _ _ _ _ _ _ => trivial

theorem usual_modest (clock : Clock) : (usual clock).Modest where
  heap _ _ _ _ := rfl
  value := Capability.perform_value

theorem usual_reports {P : RuntimeFault → Prop} (operands : OfOperands P) (clock : Clock) : (usual clock).Reports P :=
  fun capability heap args console => capability.perform_faults operands clock heap args console

end Host

end ScriptKernel
