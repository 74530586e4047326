import ScriptKernel.Proofs.Machine.Discipline
import ScriptKernel.Proofs.Machine.Hosts

/-!
What a run does to the heap. There are three changes: a new array, an element
appended to an array and an element replaced by another. Whatever is evaluated
comes to a sequence of these, and as none of them makes an array shorter, an
array is never shorter than at any time before, however the evaluation ends.
-/

namespace ScriptKernel

namespace Heap

inductive Step : Heap → Heap → Prop
  | alloc (heap : Heap) (elements : Array Value) : Step heap (heap.alloc elements).1
  | append (heap : Heap) (cell : Nat) (v : Value) : Step heap (heap.append cell v)
  | replace (heap : Heap) (cell i : Nat) (v : Value) : Step heap (heap.replace cell i v)

abbrev Steps : Heap → Heap → Prop :=
  Relation.ReflTransGen Step

variable {heap later : Heap}

theorem size_items_change_le {f : Array Value → Array Value} (longer : ∀ elements, elements.size ≤ (f elements).size)
    (heap : Heap) (cell other : Nat) : (heap.items other).size ≤ ((heap.change cell f).items other).size := by
  simp only [change, items, Array.getElem?_modify]
  split
  · cases heap.cells[other]? with
    | none => exact le_rfl
    | some elements => exact longer elements
  · exact le_rfl

theorem Step.size_items_le (step : heap.Step later) (cell : Nat) :
    (heap.items cell).size ≤ (later.items cell).size := by
  cases step with
  | alloc elements =>
    rw [items_alloc]
    split
    next new =>
      rw [items_of_le (Nat.le_of_eq new.symm)]
      exact Nat.zero_le _
    next => exact le_rfl
  | append changed v =>
    refine size_items_change_le (fun elements => ?_) heap changed cell
    rw [Array.size_push]
    exact Nat.le_succ _
  | replace changed i v =>
    refine size_items_change_le (fun elements => ?_) heap changed cell
    exact (Array.size_setIfInBounds ..).ge

theorem Steps.size_items_le (steps : heap.Steps later) (cell : Nat) :
    (heap.items cell).size ≤ (later.items cell).size := by
  induction steps with
  | refl => exact le_rfl
  | tail _ last ih => exact ih.trans (last.size_items_le cell)

theorem copyAt_steps (depth : Nat) (heap : Heap) (v : Value) : heap.Steps (copyAt depth heap v).1 :=
  copyAt_along (fun _ => .refl) .trans (fun _ _ => .single (.alloc _ _)) depth heap v

theorem copies_steps (heap : Heap) (vs : List Value) : heap.Steps (heap.copies vs).1 :=
  copyAll_along (fun _ => .refl) .trans (fun heap v => copyAt_steps heap.walkDepth heap v) heap vs

end Heap

def Host.Stepwise (host : Host) : Prop :=
  ∀ capability (heap : Heap) args console, heap.Steps (host capability heap args console).1.1

theorem Host.Modest.stepwise {host : Host} (modest : host.Modest) : host.Stepwise := by
  intro capability heap args console
  rw [modest.heap]

def stepwise (setting : Setting) : Discipline where
  setting := setting
  Moves _ st last := st.heap.Steps last.heap

namespace Stepwise

variable {setting : Setting}

theorem kept (host : setting.host.Stepwise) : (stepwise setting).Kept {} where
  refl _ _ := .refl
  trans := .trans
  change := by
    intro w p st last made _ change
    refine ⟨?_, w, le_rfl, trivial, fun _ _ => trivial⟩
    cases change with
    | collect => exact .single (.alloc _ _)
    | copies => exact (Heap.copies_steps st.heap _).tail (.alloc _ _)
    | replace => exact (Heap.copyAt_steps _ st.heap _).tail (.replace _ _ _ _)
    | append => exact (Heap.copyAt_steps _ st.heap _).tail (.append _ _ _)
    | @answer capability args heap console _ _ _ asked | @refusal capability args heap console _ _ _ asked =>
      have steps := host capability st.heap args st.console.called
      rwa [show setting.host capability st.heap args _ = _ from asked] at steps
    | _ => exact .refl
  frame _ _ _ := ⟨trivial, fun _ _ _ _ moves => ⟨trivial, moves⟩⟩
  store _ _ _ _ moves _ := ⟨trivial, moves⟩
  call := Iff.rfl
  called := id

end Stepwise

theorem interrupted_stepwise {setting : Setting} (host : setting.host.Stepwise) (stop : State → Bool) (fuel : Nat)
    (st : State) :
    (∀ x, st.heap.Steps (((interrupted stop fuel).expr x).after setting st).heap) ∧
    ∀ s, st.heap.Steps (((interrupted stop fuel).stmt s).after setting st).heap := by
  have lawful := (Stepwise.kept host).lawful rfl (fun _ _ => trivial) fun _ => trivial
  have agrees := lawful.interrupted Discipline.contains_all Discipline.functions_all rfl stop fuel
  refine ⟨fun x => ?_, fun s => ?_⟩
  · exact ((agrees.expr () () x trivial).after (fun _ => id) trivial).1
  · exact ((Discipline.runs_iff.1 (agrees.stmt () () s trivial)).after (fun _ => id) trivial).1

end ScriptKernel
