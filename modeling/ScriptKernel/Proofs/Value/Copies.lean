import ScriptKernel.Proofs.Value.Forest

/-!
Copies. Copying an array leaves the arrays that are there as they are and makes
new ones, which hold nothing but each other, so a copy may be stored into any
array that was there before.
-/

namespace ScriptKernel

namespace Heap

variable {heap mid later : Heap}

/-- The arrays are as before, and there may be further ones. -/
structure Extends (heap later : Heap) : Prop where
  size_le : heap.cells.size ≤ later.cells.size
  kept : ∀ cell < heap.cells.size, later.items cell = heap.items cell

theorem Extends.refl (heap : Heap) : heap.Extends heap :=
  ⟨le_rfl, fun _ _ => rfl⟩

theorem Extends.trans (first : heap.Extends mid) (second : mid.Extends later) : heap.Extends later where
  size_le := first.size_le.trans second.size_le
  kept cell known := by
    rw [second.kept cell (Nat.lt_of_lt_of_le known first.size_le), first.kept cell known]

theorem Extends.within (extends_ : heap.Extends later) (forest : heap.Forest) {depth : Nat} {v : Value}
    (known : ∀ cell, v = .array cell → cell < heap.cells.size) (within : heap.Within depth v) :
    later.Within depth v := by
  induction depth generalizing v with
  | zero =>
    cases v with
    | array cell => exact within.elim
    | _ => trivial
  | succ depth ih =>
    cases v with
    | array cell =>
      intro w member
      rw [extends_.kept cell (known cell rfl)] at member
      apply ih _ (within w member)
      intro inner same
      apply forest.allocated cell inner
      rw [Holds, ← same]
      exact member
    | _ => trivial

theorem slots_eq_zero {cell : Nat} (free : ∀ outer, ¬heap.Holds outer cell) : heap.slots cell = 0 := by
  rw [slots, List.sum_eq_zero_iff]
  intro n member
  obtain ⟨elements, inside, rfl⟩ := List.mem_map.1 member
  obtain ⟨outer, located⟩ := List.mem_iff_getElem?.1 inside
  apply Array.count_eq_zero.2
  intro held
  apply free outer
  rw [Array.getElem?_toList] at located
  rwa [Holds, items, located, Option.getD_some]

theorem items_alloc (heap : Heap) (elements : Array Value) (outer : Nat) :
    (heap.alloc elements).1.items outer =
      if outer = heap.cells.size then elements else heap.items outer := by
  simp only [alloc, items, Array.getElem?_push]
  split <;> rfl

theorem size_alloc (heap : Heap) (elements : Array Value) :
    (heap.alloc elements).1.cells.size = heap.cells.size + 1 :=
  Array.size_push elements

theorem slots_alloc (heap : Heap) (elements : Array Value) (cell : Nat) :
    (heap.alloc elements).1.slots cell = heap.slots cell + elements.count (.array cell) := by
  simp [alloc, slots]

theorem extends_alloc (heap : Heap) (elements : Array Value) : heap.Extends (heap.alloc elements).1 where
  size_le := by
    rw [size_alloc]
    exact Nat.le_succ _
  kept cell known := by rw [items_alloc, if_neg (Nat.ne_of_lt known)]

theorem holds_alloc {elements : Array Value} {outer inner : Nat}
    (holds : (heap.alloc elements).1.Holds outer inner) :
    heap.Holds outer inner ∨ (outer = heap.cells.size ∧ .array inner ∈ elements) := by
  rw [Holds, items_alloc] at holds
  split at holds
  next new => exact Or.inr ⟨new, holds⟩
  next => exact Or.inl holds

theorem Forest.alloc (forest : heap.Forest) {elements : Array Value}
    (free : ∀ cell, .array cell ∈ elements → cell < heap.cells.size ∧ heap.slots cell = 0)
    (once : ∀ cell, elements.count (.array cell) ≤ 1) : (heap.alloc elements).1.Forest where
  allocated outer inner holds := by
    rw [size_alloc]
    rcases holds_alloc holds with old | ⟨-, member⟩
    · exact Nat.lt_succ_of_lt (forest.allocated outer inner old)
    · exact Nat.lt_succ_of_lt (free inner member).1
  single cell := by
    rw [slots_alloc]
    by_cases member : .array cell ∈ elements
    · rw [(free cell member).2, Nat.zero_add]
      exact once cell
    · rw [Array.count_eq_zero.2 member, Nat.add_zero]
      exact forest.single cell
  acyclic cell contains := by
    -- Nothing holds the new array, so whatever lies within another did so before.
    have inner_lt {outer inner : Nat} (holds : (heap.alloc elements).1.Holds outer inner) :
        inner < heap.cells.size := by
      rcases holds_alloc holds with old | ⟨-, member⟩
      · exact forest.allocated outer inner old
      · exact (free inner member).1
    have before {outer inner : Nat} (known : outer < heap.cells.size)
        (contains : (heap.alloc elements).1.Contains outer inner) : heap.Contains outer inner := by
      have old {outer inner : Nat} (known : outer < heap.cells.size)
          (holds : (heap.alloc elements).1.Holds outer inner) : heap.Holds outer inner := by
        rcases holds_alloc holds with old | ⟨rfl, -⟩
        · exact old
        · exact absurd known (Nat.lt_irrefl _)
      induction contains with
      | single holds => exact .single (old known holds)
      | tail above holds ih =>
        obtain ⟨last, -, into⟩ := Relation.TransGen.tail'_iff.1 above
        exact .tail ih (old (inner_lt into) holds)
    obtain ⟨last, -, into⟩ := Relation.TransGen.tail'_iff.1 contains
    exact forest.acyclic cell (before (inner_lt into) contains)

/-- What copying comes to: the arrays are as before and still a forest, the new
ones hold new ones only, and the copies have not been put into any array. -/
structure Copied (heap later : Heap) (vs : List Value) : Prop where
  extends_ : heap.Extends later
  forest : later.Forest
  apart : ∀ outer inner, later.Holds outer inner → heap.cells.size ≤ outer → heap.cells.size ≤ inner
  slots : ∀ cell < heap.cells.size, later.slots cell = heap.slots cell
  fresh : ∀ cell, .array cell ∈ vs →
    heap.cells.size ≤ cell ∧ cell < later.cells.size ∧ later.slots cell = 0
  once : ∀ cell, vs.count (.array cell) ≤ 1

theorem Copied.nil (forest : heap.Forest) : heap.Copied heap [] where
  extends_ := .refl heap
  forest := forest
  apart _ _ holds known := absurd holds.lt (Nat.not_lt.2 known)
  slots _ _ := rfl
  fresh _ member := nomatch member
  once _ := Nat.zero_le 1

theorem Copied.flat (forest : heap.Forest) {v : Value} (flat : ∀ cell, v ≠ .array cell) :
    heap.Copied heap [v] where
  extends_ := .refl heap
  forest := forest
  apart _ _ holds known := absurd holds.lt (Nat.not_lt.2 known)
  slots _ _ := rfl
  fresh cell member := absurd (List.mem_singleton.1 member).symm (flat cell)
  once _ := List.count_le_length.trans le_rfl

theorem Copied.append {done vs : List Value} (first : heap.Copied mid done) (second : mid.Copied later vs) :
    heap.Copied later (done ++ vs) where
  extends_ := first.extends_.trans second.extends_
  forest := second.forest
  apart outer inner holds known := by
    by_cases old : outer < mid.cells.size
    · rw [Holds, second.extends_.kept outer old] at holds
      exact first.apart outer inner holds known
    · have new := second.apart outer inner holds (Nat.le_of_not_lt old)
      exact first.extends_.size_le.trans new
  slots cell known := by
    rw [second.slots cell (Nat.lt_of_lt_of_le known first.extends_.size_le), first.slots cell known]
  fresh cell member := by
    rcases List.mem_append.1 member with earlier | last
    · obtain ⟨new, known, free⟩ := first.fresh cell earlier
      refine ⟨new, Nat.lt_of_lt_of_le known second.extends_.size_le, ?_⟩
      rw [second.slots cell known, free]
    · obtain ⟨new, known, free⟩ := second.fresh cell last
      exact ⟨first.extends_.size_le.trans new, known, free⟩
  once cell := by
    rw [List.count_append]
    by_cases last : .array cell ∈ vs
    · have other : .array cell ∉ done := fun earlier =>
        absurd (first.fresh cell earlier).2.1 (Nat.not_lt.2 (second.fresh cell last).1)
      rw [List.count_eq_zero.2 other, Nat.zero_add]
      exact second.once cell
    · rw [List.count_eq_zero.2 last, Nat.add_zero]
      exact first.once cell

theorem Copied.alloc {elements : Array Value} (copied : heap.Copied later elements.toList) :
    heap.Copied (later.alloc elements).1 [(later.alloc elements).2] := by
  have fresh (cell : Nat) (member : .array cell ∈ elements) :=
    copied.fresh cell (Array.mem_toList_iff.2 member)
  have unheld : later.slots later.cells.size = 0 :=
    slots_eq_zero fun outer holds => Nat.lt_irrefl _ (copied.forest.allocated outer _ holds)
  refine ⟨copied.extends_.trans (later.extends_alloc elements), ?_, ?_, ?_, ?_, ?_⟩
  · apply copied.forest.alloc (fun cell member => (fresh cell member).2)
    intro cell
    rw [← Array.count_toList]
    exact copied.once cell
  · intro outer inner holds known
    rcases holds_alloc holds with old | ⟨-, member⟩
    · exact copied.apart outer inner old known
    · exact (fresh inner member).1
  · intro cell known
    have other : .array cell ∉ elements := fun member => absurd known (Nat.not_lt.2 (fresh cell member).1)
    rw [slots_alloc, Array.count_eq_zero.2 other, Nat.add_zero, copied.slots cell known]
  · intro cell member
    obtain rfl : cell = later.cells.size := by simpa [Heap.alloc] using member
    have other : .array later.cells.size ∉ elements := fun member =>
      Nat.lt_irrefl _ (fresh later.cells.size member).2.1
    rw [size_alloc, slots_alloc, unheld, Array.count_eq_zero.2 other]
    exact ⟨copied.extends_.size_le, Nat.lt_succ_self _, rfl⟩
  · intro cell
    exact List.count_le_length.trans le_rfl

def copyNext (copy : Heap → Value → Heap × Value) (copies : Heap × Array Value) (v : Value) :
    Heap × Array Value :=
  ((copy copies.1 v).1, copies.2.push (copy copies.1 v).2)

theorem copyAll_eq (copy : Heap → Value → Heap × Value) (heap : Heap) (vs : List Value) :
    copyAll copy heap vs = vs.foldl (copyNext copy) (heap, #[]) :=
  rfl

theorem copyAll_along {R : Heap → Heap → Prop} (refl : ∀ heap, R heap heap)
    (trans : ∀ {first second third}, R first second → R second third → R first third)
    {copy : Heap → Value → Heap × Value} (each : ∀ heap v, R heap (copy heap v).1) (heap : Heap) (vs : List Value) :
    R heap (copyAll copy heap vs).1 := by
  rw [copyAll_eq]
  generalize (#[] : Array Value) = done
  induction vs generalizing heap done with
  | nil => exact refl heap
  | cons v vs ih => exact trans (each heap v) (ih _ _)

theorem copyAt_along {R : Heap → Heap → Prop} (refl : ∀ heap, R heap heap)
    (trans : ∀ {first second third}, R first second → R second third → R first third)
    (alloc : ∀ (heap : Heap) elements, R heap (heap.alloc elements).1) (depth : Nat) (heap : Heap) (v : Value) :
    R heap (copyAt depth heap v).1 := by
  induction depth generalizing heap v with
  | zero => cases v <;> exact refl heap
  | succ depth ih =>
    cases v with
    | array cell => exact trans (copyAll_along refl trans ih heap _) (alloc _ _)
    | _ => exact refl heap

theorem copyAt_extends (depth : Nat) (heap : Heap) (v : Value) : heap.Extends (copyAt depth heap v).1 :=
  copyAt_along .refl .trans extends_alloc depth heap v

theorem copy_extends (heap : Heap) (v : Value) : heap.Extends (heap.copy v).1 :=
  copyAt_extends heap.walkDepth heap v

theorem copyAll_extends (depth : Nat) (heap : Heap) (vs : List Value) :
    heap.Extends (copyAll (copyAt depth) heap vs).1 :=
  copyAll_along .refl .trans (copyAt_extends depth) heap vs

theorem copyAll_copied {copy : Heap → Value → Heap × Value} (forest : heap.Forest) {vs : List Value}
    (each : ∀ v ∈ vs, ∀ mid, heap.Extends mid → mid.Forest → mid.Copied (copy mid v).1 [(copy mid v).2]) :
    heap.Copied (copyAll copy heap vs).1 (copyAll copy heap vs).2.toList := by
  have from_ (mid : Heap) (done : Array Value) (copied : heap.Copied mid done.toList) :
      let result := vs.foldl (copyNext copy) (mid, done)
      heap.Copied result.1 result.2.toList := by
    induction vs generalizing mid done with
    | nil => exact copied
    | cons v vs ih =>
      have here := each v List.mem_cons_self mid copied.extends_ copied.forest
      have longer := copied.append here
      rw [← Array.toList_push] at longer
      exact ih (fun w member => each w (List.mem_cons_of_mem v member)) _ _ longer
  rw [copyAll_eq]
  exact from_ heap #[] (.nil forest)

theorem copyAt_copied (forest : heap.Forest) {depth : Nat} {v : Value}
    (known : ∀ cell, v = .array cell → cell < heap.cells.size) (within : heap.Within depth v) :
    heap.Copied (copyAt depth heap v).1 [(copyAt depth heap v).2] := by
  induction depth generalizing heap v with
  | zero =>
    cases v with
    | array cell => exact within.elim
    | _ => exact .flat forest (by simp [copyAt])
  | succ depth ih =>
    cases v with
    | array cell =>
      have copied := @copyAll_copied heap (copyAt depth) forest (heap.items cell).toList ?_
      · exact copied.alloc
      · intro w member mid extends_ forest'
        rw [Array.mem_toList_iff] at member
        have inside (inner : Nat) (same : w = .array inner) : inner < heap.cells.size := by
          apply forest.allocated cell inner
          rw [Holds, ← same]
          exact member
        apply ih forest' fun inner same => Nat.lt_of_lt_of_le (inside inner same) extends_.size_le
        exact extends_.within forest inside (within w member)
    | _ => exact .flat forest (by simp [copyAt])

theorem copyAll_congr {copy copy' : Heap → Value → Heap × Value} (forest : heap.Forest) {vs : List Value}
    (each : ∀ v ∈ vs, ∀ mid, heap.Extends mid → mid.Forest →
      copy mid v = copy' mid v ∧ mid.Copied (copy mid v).1 [(copy mid v).2]) :
    copyAll copy heap vs = copyAll copy' heap vs := by
  have from_ (mid : Heap) (done : Array Value) (extends_ : heap.Extends mid) (forest : mid.Forest) :
      vs.foldl (copyNext copy) (mid, done) =
      vs.foldl (copyNext copy') (mid, done) := by
    induction vs generalizing mid done with
    | nil => rfl
    | cons v vs ih =>
      obtain ⟨same, copied⟩ := each v List.mem_cons_self mid extends_ forest
      rw [List.foldl_cons, List.foldl_cons, copyNext, copyNext, ← same]
      exact ih (fun w member => each w (List.mem_cons_of_mem v member)) _ _
        (extends_.trans copied.extends_) copied.forest
  rw [copyAll_eq, copyAll_eq]
  exact from_ heap #[] (.refl heap) forest

theorem copyAt_within (forest : heap.Forest) {depth deeper : Nat} {v : Value}
    (known : ∀ cell, v = .array cell → cell < heap.cells.size) (within : heap.Within depth v)
    (le : depth ≤ deeper) : copyAt deeper heap v = copyAt depth heap v := by
  induction depth generalizing deeper heap v with
  | zero =>
    cases v with
    | array cell => exact within.elim
    | _ => cases deeper <;> rfl
  | succ depth ih =>
    obtain ⟨deeper, rfl⟩ : ∃ k, deeper = k + 1 := ⟨deeper - 1, by omega⟩
    cases v with
    | array cell =>
      simp only [copyAt]
      rw [@copyAll_congr heap (copyAt deeper) (copyAt depth) forest]
      intro w member mid extends_ forest'
      rw [Array.mem_toList_iff] at member
      have inside (inner : Nat) (same : w = .array inner) : inner < heap.cells.size := by
        apply forest.allocated cell inner
        rw [Holds, ← same]
        exact member
      have there (inner : Nat) (same : w = .array inner) : inner < mid.cells.size :=
        Nat.lt_of_lt_of_le (inside inner same) extends_.size_le
      have ends := extends_.within forest inside (within w member)
      have same := ih forest' there ends (Nat.le_of_succ_le_succ le)
      rw [same]
      exact ⟨rfl, copyAt_copied forest' there ends⟩
    | _ => rfl

theorem copy_copied (forest : heap.Forest) {v : Value} (known : ∀ cell, v = .array cell → cell < heap.cells.size) :
    heap.Copied (heap.copy v).1 [(heap.copy v).2] :=
  copyAt_copied forest known (forest.within v)

theorem copies_copied (forest : heap.Forest) {vs : List Value}
    (known : ∀ cell, .array cell ∈ vs → cell < heap.cells.size) :
    heap.Copied (heap.copies vs).1 (heap.copies vs).2.toList := by
  apply copyAll_copied forest
  intro v member mid extends_ forest'
  apply copy_copied forest'
  rintro cell rfl
  exact Nat.lt_of_lt_of_le (known cell member) extends_.size_le

/-- A walk over the nested elements of the value ends, and to go deeper makes no
difference to its texts, to its equality with others and to its copy. -/
structure Finite (heap : Heap) (v : Value) : Prop where
  ends : heap.Within heap.walkDepth v
  display : ∀ depth, heap.walkDepth ≤ depth → heap.displayAt depth v = heap.display v
  debug : ∀ depth, heap.walkDepth ≤ depth → heap.debugAt depth v = heap.debug v
  equal : ∀ depth w, heap.walkDepth ≤ depth → heap.equalAt depth v w = heap.strictEqual v w
  copy : ∀ depth, heap.walkDepth ≤ depth → copyAt depth heap v = heap.copy v

theorem Forest.finite (forest : heap.Forest) {v : Value}
    (known : ∀ cell, v = .array cell → cell < heap.cells.size) : heap.Finite v where
  ends := forest.within v
  display _ le := displayAt_within (forest.within v) le
  debug _ le := debugAt_within (forest.within v) le
  equal _ w le := equalAt_within (forest.within v) le w
  copy _ le := copyAt_within forest known (forest.within v) le

section Each

variable {P : Value → Prop}

/-- Every element of every array has the property. -/
def Each (heap : Heap) (P : Value → Prop) : Prop :=
  ∀ cell, ∀ v ∈ heap.items cell, P v

theorem Each.alloc (each : heap.Each P) {elements : Array Value} (holds : ∀ v ∈ elements, P v) :
    (heap.alloc elements).1.Each P := by
  intro cell v member
  rw [items_alloc] at member
  split at member
  · exact holds v member
  · exact each cell v member

theorem copyAll_each {copy : Heap → Value → Heap × Value} {vs : List Value} (each : heap.Each P)
    (step : ∀ v ∈ vs, ∀ mid : Heap, mid.Each P → (copy mid v).1.Each P ∧ P (copy mid v).2) :
    (copyAll copy heap vs).1.Each P ∧ ∀ v ∈ (copyAll copy heap vs).2, P v := by
  have from_ (mid : Heap) (done : Array Value) (each : mid.Each P) (before : ∀ v ∈ done, P v) :
      let result := vs.foldl (copyNext copy) (mid, done)
      result.1.Each P ∧ ∀ v ∈ result.2, P v := by
    induction vs generalizing mid done with
    | nil => exact ⟨each, before⟩
    | cons v vs ih =>
      obtain ⟨each', holds⟩ := step v List.mem_cons_self mid each
      apply ih (fun w member => step w (List.mem_cons_of_mem v member)) _ _ each'
      intro w member
      rcases Array.mem_push.1 member with earlier | rfl
      · exact before w earlier
      · exact holds
  rw [copyAll_eq]
  exact from_ heap #[] each (by simp)

theorem copyAt_each (arrays : ∀ cell, P (.array cell)) (depth : Nat) (each : heap.Each P) {v : Value}
    (holds : P v) : (copyAt depth heap v).1.Each P ∧ P (copyAt depth heap v).2 := by
  induction depth generalizing heap v with
  | zero => cases v <;> exact ⟨each, holds⟩
  | succ depth ih =>
    cases v with
    | array cell =>
      have copied := @copyAll_each heap P (copyAt depth) (heap.items cell).toList each ?_
      · exact ⟨copied.1.alloc copied.2, arrays _⟩
      · intro w member mid each'
        exact ih each' (each cell w (Array.mem_toList_iff.1 member))
    | _ => exact ⟨each, holds⟩

theorem copy_each (arrays : ∀ cell, P (.array cell)) (each : heap.Each P) {v : Value} (holds : P v) :
    (heap.copy v).1.Each P ∧ P (heap.copy v).2 :=
  copyAt_each arrays heap.walkDepth each holds

theorem copies_each (arrays : ∀ cell, P (.array cell)) (each : heap.Each P) {vs : List Value}
    (holds : ∀ v ∈ vs, P v) : (heap.copies vs).1.Each P ∧ ∀ v ∈ (heap.copies vs).2, P v :=
  copyAll_each each fun v member _ each' => copy_each arrays each' (holds v member)

end Each

def Adds (v : Value) (f : Array Value → Array Value) : Prop :=
  ∀ elements x, (f elements).count x ≤ elements.count x + [v].count x

theorem adds_push (v : Value) : Adds v (·.push v) := by
  intro elements x
  rw [Array.count_push, List.count_singleton]

theorem adds_set (i : Nat) (v : Value) : Adds v (·.setIfInBounds i v) := by
  intro elements x
  show (elements.setIfInBounds i v).count x ≤ elements.count x + [v].count x
  by_cases inside : i < elements.size
  · rw [Array.setIfInBounds, dif_pos inside, Array.count_set, List.count_singleton]
    omega
  · rw [Array.setIfInBounds, dif_neg inside]
    exact Nat.le_add_right _ _

def change (heap : Heap) (cell : Nat) (f : Array Value → Array Value) : Heap :=
  ⟨heap.cells.modify cell f⟩

variable {cell : Nat} {v : Value} {f : Array Value → Array Value}

theorem size_change (heap : Heap) (cell : Nat) (f : Array Value → Array Value) :
    (heap.change cell f).cells.size = heap.cells.size :=
  Array.size_modify

theorem items_change (known : cell < heap.cells.size) (f : Array Value → Array Value) (outer : Nat) :
    (heap.change cell f).items outer = if outer = cell then f (heap.items outer) else heap.items outer := by
  simp only [change, items, Array.getElem?_modify]
  by_cases same : outer = cell
  · subst same
    simp [known]
  · rw [if_neg same, if_neg (Ne.symm same)]

theorem sum_modify_le {α : Type} {weight : α → Nat} {g : α → α} {more : Nat}
    (heavier : ∀ x, weight (g x) ≤ weight x + more) (xs : List α) (i : Nat) :
    ((xs.modify i g).map weight).sum ≤ (xs.map weight).sum + more := by
  induction xs generalizing i with
  | nil => simp
  | cons x xs ih =>
    cases i with
    | zero =>
      have := heavier x
      simp only [List.modify_zero_cons, List.map_cons, List.sum_cons]
      omega
    | succ i =>
      have := ih i
      simp only [List.modify_succ_cons, List.map_cons, List.sum_cons]
      omega

theorem slots_change (adds : Adds v f) (heap : Heap) (cell inner : Nat) :
    (heap.change cell f).slots inner ≤ heap.slots inner + [v].count (.array inner) := by
  rw [slots, change, Array.toList_modify]
  apply sum_modify_le
  intro elements
  exact adds elements (.array inner)

theorem holds_change (adds : Adds v f) (known : cell < heap.cells.size) {outer inner : Nat}
    (holds : (heap.change cell f).Holds outer inner) :
    heap.Holds outer inner ∨ (outer = cell ∧ v = .array inner) := by
  rw [Holds, items_change known] at holds
  split at holds
  next same =>
    have counted : 0 < (f (heap.items outer)).count (.array inner) := Array.count_pos_iff.2 holds
    have most := adds (heap.items outer) (.array inner)
    by_cases member : .array inner ∈ heap.items outer
    · exact Or.inl member
    · rw [Array.count_eq_zero.2 member, Nat.zero_add] at most
      have added := List.count_pos_iff.1 (Nat.lt_of_lt_of_le counted most)
      exact Or.inr ⟨same, (List.mem_singleton.1 added).symm⟩
  next => exact Or.inl holds

theorem contains_change (adds : Adds v f) (known : cell < heap.cells.size) {outer inner : Nat}
    (contains : (heap.change cell f).Contains outer inner) :
    heap.Contains outer inner ∨
      ∃ copy, v = .array copy ∧ (outer = cell ∨ heap.Contains outer cell) ∧
        (inner = copy ∨ heap.Contains copy inner) := by
  induction contains with
  | single holds =>
    rcases holds_change adds known holds with old | ⟨here, added⟩
    · exact Or.inl (.single old)
    · exact Or.inr ⟨_, added, Or.inl here, Or.inl rfl⟩
  | @tail middle inner above holds ih =>
    rcases holds_change adds known holds with old | ⟨rfl, added⟩
    · rcases ih with above | ⟨copy, same, outside, inside⟩
      · exact Or.inl (.tail above old)
      · refine Or.inr ⟨copy, same, outside, Or.inr ?_⟩
        rcases inside with rfl | inside
        · exact .single old
        · exact .tail inside old
    · rcases ih with above | ⟨copy, same, outside, inside⟩
      · exact Or.inr ⟨inner, added, Or.inr above, Or.inl rfl⟩
      · exact Or.inr ⟨inner, added, outside, Or.inl rfl⟩

theorem Each.change {P : Value → Prop} (each : heap.Each P) (adds : Adds v f) (holds : P v)
    (known : cell < heap.cells.size) : (heap.change cell f).Each P := by
  intro outer w member
  rw [items_change known] at member
  split at member
  · have counted : 0 < (f (heap.items outer)).count w := Array.count_pos_iff.2 member
    have most := adds (heap.items outer) w
    by_cases old : w ∈ heap.items outer
    · exact each outer w old
    · rw [Array.count_eq_zero.2 old, Nat.zero_add] at most
      have added := List.count_pos_iff.1 (Nat.lt_of_lt_of_le counted most)
      rwa [List.mem_singleton.1 added]
  · exact each outer w member

theorem Copied.contains_apart {vs : List Value} (copied : heap.Copied later vs) {outer inner : Nat}
    (contains : later.Contains outer inner) (new : heap.cells.size ≤ outer) : heap.cells.size ≤ inner := by
  induction contains with
  | single holds => exact copied.apart _ _ holds new
  | tail above holds ih => exact copied.apart _ _ holds ih

theorem Copied.change (copied : heap.Copied later [v]) (adds : Adds v f) (known : cell < heap.cells.size) :
    (later.change cell f).Forest := by
  have inside : cell < later.cells.size := Nat.lt_of_lt_of_le known copied.extends_.size_le
  have fresh {inner : Nat} (same : v = .array inner) := copied.fresh inner (List.mem_singleton.2 same.symm)
  refine ⟨?_, ?_, ?_⟩
  · intro outer inner holds
    rw [size_change]
    rcases holds_change adds inside holds with old | ⟨-, same⟩
    · exact copied.forest.allocated outer inner old
    · exact (fresh same).2.1
  · intro inner
    have most := slots_change adds later cell inner
    by_cases same : v = .array inner
    · rw [(fresh same).2.2, Nat.zero_add] at most
      exact most.trans (copied.once inner)
    · have other : [v].count (.array inner) = 0 :=
        List.count_eq_zero.2 fun member => same (List.mem_singleton.1 member).symm
      rw [other, Nat.add_zero] at most
      exact most.trans (copied.forest.single inner)
  · intro outer contains
    rcases contains_change adds inside contains with old | ⟨copy, same, above, below⟩
    · exact copied.forest.acyclic outer old
    · -- The array stored into would lie within the copy.
      have new : heap.cells.size ≤ outer := by
        rcases below with rfl | below
        · exact (fresh same).1
        · exact copied.contains_apart below (fresh same).1
      rcases above with rfl | above
      · exact absurd known (Nat.not_lt.2 new)
      · exact absurd known (Nat.not_lt.2 (copied.contains_apart above new))

/-- The value is neither the array nor one that contains it. -/
def Outside (heap : Heap) (cell : Nat) (w : Value) : Prop :=
  ∀ outer, w = .array outer → outer ≠ cell ∧ ¬heap.Contains outer cell

theorem at?_change (forest : heap.Forest) (extends_ : heap.Extends later) (inside : cell < later.cells.size)
    (f : Array Value → Array Value) {w : Value} (known : ∀ outer, w = .array outer → outer < heap.cells.size)
    (outside : heap.Outside cell w) (path : List Nat) :
    (later.change cell f).at? w path = heap.at? w path := by
  induction path generalizing w with
  | nil => cases w <;> rfl
  | cons i path ih =>
    cases w with
    | array outer =>
      obtain ⟨other, apart⟩ := outside outer rfl
      simp only [at?]
      rw [items_change inside, if_neg other, extends_.kept outer (known outer rfl)]
      cases located : (heap.items outer)[i]? with
      | none => rfl
      | some x =>
        have holds (inner : Nat) (same : x = .array inner) : heap.Holds outer inner := by
          rw [Holds, ← same]
          exact Array.mem_of_getElem? located
        apply ih
        · intro inner same
          exact forest.allocated outer inner (holds inner same)
        · intro inner same
          refine ⟨?_, fun contains => apart (.head (holds inner same) contains)⟩
          rintro rfl
          exact apart (.single (holds _ same))
    | _ => rfl

end Heap

end ScriptKernel
