import Mathlib.Algebra.Order.BigOperators.Group.List
import Mathlib.Algebra.Order.Ring.Nat
import Mathlib.Data.List.Basic
import Mathlib.Data.List.Range
import Mathlib.Logic.Relation
import ScriptKernel.Value.Heap

/-!
Arrays within arrays. In a heap that is a forest every array is an element of
at most one other and none lies within itself, so a walk over nested elements
visits no array twice and ends before it is as deep as the heap has arrays.
-/

namespace ScriptKernel

namespace Heap

def Holds (heap : Heap) (outer inner : Nat) : Prop :=
  Value.array inner ∈ heap.items outer

def Contains (heap : Heap) : Nat → Nat → Prop :=
  Relation.TransGen heap.Holds

/-- The number of slots, over all arrays, that an array is in. -/
def slots (heap : Heap) (cell : Nat) : Nat :=
  (heap.cells.toList.map fun items => items.count (.array cell)).sum

/-- Elements are arrays of the heap, each in one slot at most, and no array lies
within itself. -/
structure Forest (heap : Heap) : Prop where
  allocated : ∀ outer inner, heap.Holds outer inner → inner < heap.cells.size
  single : ∀ cell, heap.slots cell ≤ 1
  acyclic : ∀ cell, ¬heap.Contains cell cell

/-- What is found along a path of positions, from a value inwards. -/
def at? (heap : Heap) : Value → List Nat → Option Value
  | v, [] => some v
  | .array cell, i :: path => (heap.items cell)[i]?.bind fun v => heap.at? v path
  | _, _ :: _ => none

variable {heap : Heap}

theorem items_of_lt {cell : Nat} (known : cell < heap.cells.size) :
    heap.items cell = heap.cells[cell] := by
  simp [items, known]

theorem items_of_le {cell : Nat} (unknown : heap.cells.size ≤ cell) : heap.items cell = #[] := by
  simp [items, Nat.not_lt.2 unknown]

theorem Holds.lt {outer inner : Nat} (holds : heap.Holds outer inner) : outer < heap.cells.size := by
  by_contra unknown
  rw [Holds, items_of_le (Nat.le_of_not_lt unknown)] at holds
  simp at holds

theorem forest_empty : ({} : Heap).Forest := by
  have none (outer inner : Nat) : ¬({} : Heap).Holds outer inner := by simp [Holds, items]
  refine ⟨fun outer inner holds => absurd holds (none outer inner), fun cell => by simp [slots], ?_⟩
  intro cell contains
  obtain ⟨next, holds, -⟩ := Relation.TransGen.head'_iff.1 contains
  exact none cell next holds

theorem two_le_sum {α : Type} (weight : α → Nat) {xs : List α} {i j : Nat} {x y : α} (apart : i < j)
    (here : xs[i]? = some x) (there : xs[j]? = some y) :
    weight x + weight y ≤ (xs.map weight).sum := by
  induction xs generalizing i j with
  | nil => simp at here
  | cons first xs ih =>
    obtain ⟨j, rfl⟩ : ∃ k, j = k + 1 := ⟨j - 1, by omega⟩
    rw [List.getElem?_cons_succ] at there
    rw [List.map_cons, List.sum_cons]
    cases i with
    | zero =>
      obtain rfl : first = x := by simpa using here
      have later : weight y ≤ (xs.map weight).sum :=
        List.single_le_sum (fun n _ => Nat.zero_le n) _ (List.mem_map.2 ⟨y, List.mem_of_getElem? there, rfl⟩)
      omega
    | succ i =>
      rw [List.getElem?_cons_succ] at here
      have := ih (by omega) here there
      omega

theorem Forest.holder_unique {first second inner : Nat} (forest : heap.Forest)
    (holds : heap.Holds first inner) (holds' : heap.Holds second inner) : first = second := by
  have single := forest.single inner
  have taken {cell : Nat} (holds : heap.Holds cell inner) :
      ∃ items, heap.cells.toList[cell]? = some items ∧ 0 < items.count (.array inner) := by
    refine ⟨heap.items cell, ?_, Array.count_pos_iff.2 holds⟩
    rw [items_of_lt holds.lt]
    simp [holds.lt]
  obtain ⟨items, located, counted⟩ := taken holds
  obtain ⟨items', located', counted'⟩ := taken holds'
  rcases Nat.lt_trichotomy first second with lt | same | gt
  · have := two_le_sum (fun items => items.count (.array inner)) lt located located'
    rw [slots] at single
    omega
  · exact same
  · have := two_le_sum (fun items => items.count (.array inner)) gt located' located
    rw [slots] at single
    omega

theorem Forest.containers_nested {first second inner : Nat} (forest : heap.Forest)
    (contains : heap.Contains first inner) (contains' : heap.Contains second inner) :
    first = second ∨ heap.Contains first second ∨ heap.Contains second first := by
  induction contains generalizing second with
  | single holds =>
    obtain ⟨last, above, holds'⟩ := Relation.TransGen.tail'_iff.1 contains'
    obtain rfl := forest.holder_unique holds holds'
    rcases Relation.reflTransGen_iff_eq_or_transGen.1 above with same | above
    · exact Or.inl same
    · exact Or.inr (Or.inr above)
  | tail above holds ih =>
    obtain ⟨last, above', holds'⟩ := Relation.TransGen.tail'_iff.1 contains'
    obtain rfl := forest.holder_unique holds holds'
    rcases Relation.reflTransGen_iff_eq_or_transGen.1 above' with rfl | above'
    · exact Or.inr (Or.inl above)
    · exact ih above'

/-- A walk over the nested elements of a value ends within the given depth. -/
def Within (heap : Heap) : Nat → Value → Prop
  | 0, .array _ => False
  | depth + 1, .array cell => ∀ v ∈ heap.items cell, heap.Within depth v
  | _, _ => True

theorem length_le_of_nodup {visited : List Nat} {n : Nat} (distinct : visited.Nodup)
    (known : ∀ cell ∈ visited, cell < n) : visited.length ≤ n := by
  have fewer : visited.length ≤ (List.range n).length := by
    apply List.Subperm.length_le
    exact List.subperm_of_subset distinct fun cell member => List.mem_range.2 (known cell member)
  rwa [List.length_range] at fewer

theorem Forest.within_below (forest : heap.Forest) {depth : Nat} {visited : List Nat} {v : Value}
    (distinct : visited.Nodup) (known : ∀ outer ∈ visited, outer < heap.cells.size)
    (below : ∀ outer ∈ visited, ∀ cell, v = .array cell → heap.Contains outer cell)
    (enough : heap.cells.size + 1 ≤ depth + visited.length) : heap.Within depth v := by
  induction depth generalizing visited v with
  | zero =>
    have fewer := length_le_of_nodup distinct known
    omega
  | succ depth ih =>
    cases v with
    | array cell =>
      intro w member
      have here : cell < heap.cells.size := by
        by_contra unknown
        rw [items_of_le (Nat.le_of_not_lt unknown)] at member
        simp at member
      have new : cell ∉ visited := fun member => forest.acyclic cell (below cell member cell rfl)
      apply ih (show (cell :: visited).Nodup from List.nodup_cons.2 ⟨new, distinct⟩)
      · intro outer member
        rcases List.mem_cons.1 member with rfl | earlier
        · exact here
        · exact known outer earlier
      · intro outer member' inner same
        have holds : heap.Holds cell inner := by
          rw [Holds, ← same]
          exact member
        rcases List.mem_cons.1 member' with rfl | earlier
        · exact .single holds
        · exact .tail (below outer earlier cell rfl) holds
      · rw [List.length_cons]
        omega
    | _ => trivial

theorem Forest.within (forest : heap.Forest) (v : Value) : heap.Within heap.walkDepth v :=
  forest.within_below List.nodup_nil (List.forall_mem_nil _) (fun _ member => nomatch member) le_rfl

theorem displayAt_within {depth deeper : Nat} {v : Value} (within : heap.Within depth v)
    (le : depth ≤ deeper) : heap.displayAt deeper v = heap.displayAt depth v := by
  induction depth generalizing deeper v with
  | zero =>
    cases v with
    | array cell => exact within.elim
    | _ => cases deeper <;> rfl
  | succ depth ih =>
    obtain ⟨deeper, rfl⟩ : ∃ k, deeper = k + 1 := ⟨deeper - 1, by omega⟩
    cases v with
    | array cell =>
      simp only [displayAt]
      congr 3
      apply List.map_congr_left
      intro w member
      have same := ih (within w (Array.mem_toList_iff.1 member)) (Nat.le_of_succ_le_succ le)
      cases w with
      | string s => rfl
      | _ => exact same
    | _ => rfl

theorem debugAt_within {depth deeper : Nat} {v : Value} (within : heap.Within depth v)
    (le : depth ≤ deeper) : heap.debugAt deeper v = heap.debugAt depth v := by
  induction depth generalizing deeper v with
  | zero =>
    cases v with
    | array cell => exact within.elim
    | _ => cases deeper <;> rfl
  | succ depth ih =>
    obtain ⟨deeper, rfl⟩ : ∃ k, deeper = k + 1 := ⟨deeper - 1, by omega⟩
    cases v with
    | array cell =>
      simp only [debugAt]
      congr 3
      apply List.map_congr_left
      intro w member
      exact ih (within w (Array.mem_toList_iff.1 member)) (Nat.le_of_succ_le_succ le)
    | _ => rfl

theorem allEqual_congr {equal equal' : Value → Value → Except RuntimeFault Bool} {as bs : List Value}
    (same : ∀ a ∈ as, ∀ b, equal a b = equal' a b) : allEqual equal as bs = allEqual equal' as bs := by
  induction as generalizing bs with
  | nil => rfl
  | cons a as ih =>
    cases bs with
    | nil => rfl
    | cons b bs =>
      have rest : allEqual equal as bs = allEqual equal' as bs :=
        ih fun a member b => same a (List.mem_cons_of_mem _ member) b
      simp only [allEqual, same a List.mem_cons_self b, rest]

theorem equalAt_flat {a b : Value} (flat : ∀ cell cell', a = .array cell → b ≠ .array cell')
    (depth deeper : Nat) : heap.equalAt deeper a b = heap.equalAt depth a b := by
  cases a with
  | array cell =>
    cases b with
    | array cell' => exact absurd rfl (flat cell cell' rfl)
    | _ => cases deeper <;> cases depth <;> rfl
  | _ => cases b <;> cases deeper <;> cases depth <;> rfl

theorem equalAt_arrays (depth cell cell' : Nat) : heap.equalAt (depth + 1) (.array cell) (.array cell') =
    if (heap.items cell).size ≠ (heap.items cell').size then .ok false
    else allEqual (fun x y => if x.kind ≠ y.kind then .ok false else heap.equalAt depth x y)
      (heap.items cell).toList (heap.items cell').toList := rfl

theorem equalAt_within {depth deeper : Nat} {a : Value} (within : heap.Within depth a)
    (le : depth ≤ deeper) (b : Value) : heap.equalAt deeper a b = heap.equalAt depth a b := by
  induction depth generalizing deeper a b with
  | zero =>
    refine equalAt_flat ?_ 0 deeper
    rintro cell cell' rfl
    exact within.elim
  | succ depth ih =>
    obtain ⟨deeper, rfl⟩ : ∃ k, deeper = k + 1 := ⟨deeper - 1, by omega⟩
    cases a with
    | array cell =>
      cases b with
      | array cell' =>
        rw [equalAt_arrays, equalAt_arrays]
        congr 1
        apply allEqual_congr
        intro x member y
        rw [ih (within x (Array.mem_toList_iff.1 member)) (Nat.le_of_succ_le_succ le) y]
      | _ => exact equalAt_flat (by simp) _ _
    | _ => exact equalAt_flat (by simp) _ _

end Heap

end ScriptKernel
