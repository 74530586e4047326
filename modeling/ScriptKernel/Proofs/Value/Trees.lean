import ScriptKernel.Proofs.Value.Copies

/-!
Values as trees. A value whose nested arrays come to an end shows a tree, with
a node for every array and a leaf for everything else. The tree is what stays
when the cells of the arrays do not matter: a value shows one tree only, goes on
to show it while the heap is extended, and a copy shows the same tree. No tree
is higher than the heap has arrays, so every walk over nested elements sees all
of it. What is displayed of a value and what equality says of it depend on the
tree alone, also where two values are in two heaps. The tree stays while new
arrays are made beside it, and while an array changes that is not in it.
-/

namespace ScriptKernel

/-- A value with all that is nested in it. -/
inductive Unfolding where
  | leaf (v : Value)
  | node (items : List Unfolding)

namespace Unfolding

mutual

def height : Unfolding → Nat
  | leaf _ => 0
  | node ts => heights ts + 1

def heights : List Unfolding → Nat
  | [] => 0
  | t :: ts => max t.height (heights ts)

end

mutual

def Each (P : Value → Prop) : Unfolding → Prop
  | leaf v => P v
  | node ts => All P ts

def All (P : Value → Prop) : List Unfolding → Prop
  | [] => True
  | t :: ts => t.Each P ∧ All P ts

end

mutual

theorem Each.mono {P Q : Value → Prop} (sub : ∀ v, P v → Q v) : ∀ {t : Unfolding}, t.Each P → t.Each Q
  | leaf _, each => by
    simp only [Each] at each ⊢
    exact sub _ each
  | node _, each => by
    simp only [Each] at each ⊢
    exact All.mono sub each

theorem All.mono {P Q : Value → Prop} (sub : ∀ v, P v → Q v) : ∀ {ts : List Unfolding}, All P ts → All Q ts
  | [], _ => trivial
  | _ :: _, ⟨first, rest⟩ => ⟨first.mono sub, All.mono sub rest⟩

end

end Unfolding

namespace Heap

mutual

/-- The value with all that is nested in it makes up the tree. -/
inductive Shows (heap : Heap) : Value → Unfolding → Prop
  | leaf {v : Value} (flat : ∀ cell, v ≠ .array cell) : Shows heap v (.leaf v)
  | node {cell : Nat} {ts : List Unfolding} (known : cell < heap.cells.size)
      (items : ShowAll heap (heap.items cell).toList ts) : Shows heap (.array cell) (.node ts)

inductive ShowAll (heap : Heap) : List Value → List Unfolding → Prop
  | nil : ShowAll heap [] []
  | cons {v : Value} {vs : List Value} {t : Unfolding} {ts : List Unfolding} (first : Shows heap v t)
      (rest : ShowAll heap vs ts) : ShowAll heap (v :: vs) (t :: ts)

end

/-- A value made up of leaves with the property, in arrays nested to any depth. -/
def MadeOf (heap : Heap) (P : Value → Prop) (v : Value) : Prop :=
  ∃ t, heap.Shows v t ∧ t.Each P

variable {heap later : Heap} {v : Value} {vs : List Value}

theorem MadeOf.mono {P Q : Value → Prop} (sub : ∀ v, P v → Q v) (made : heap.MadeOf P v) : heap.MadeOf Q v := by
  obtain ⟨t, shown, each⟩ := made
  exact ⟨t, shown, each.mono sub⟩

theorem MadeOf.leaf {P : Value → Prop} (flat : ∀ cell, v ≠ .array cell) (holds : P v) : heap.MadeOf P v :=
  ⟨.leaf v, .leaf flat, holds⟩

theorem exists_showAll_of_madeOf {P : Value → Prop} (each : ∀ v ∈ vs, heap.MadeOf P v) :
    ∃ ts, heap.ShowAll vs ts ∧ Unfolding.All P ts := by
  induction vs with
  | nil => exact ⟨[], .nil, trivial⟩
  | cons v vs ih =>
    obtain ⟨t, first, holds⟩ := each v List.mem_cons_self
    obtain ⟨ts, rest, all⟩ := ih fun w member => each w (List.mem_cons_of_mem v member)
    exact ⟨t :: ts, .cons first rest, holds, all⟩

theorem ShowAll.length_eq {ts : List Unfolding} (shown : heap.ShowAll vs ts) : vs.length = ts.length := by
  induction ts generalizing vs with
  | nil =>
    cases shown
    rfl
  | cons t ts ih =>
    cases shown with
    | cons first rest => rw [List.length_cons, List.length_cons, ih rest]

theorem ShowAll.append {ts us : List Unfolding} {ws : List Value} (first : heap.ShowAll vs ts)
    (second : heap.ShowAll ws us) : heap.ShowAll (vs ++ ws) (ts ++ us) := by
  induction ts generalizing vs with
  | nil =>
    cases first
    exact second
  | cons t ts ih =>
    cases first with
    | cons here rest => exact .cons here (ih rest)

mutual

theorem Shows.unique : ∀ (t : Unfolding) {u : Unfolding} {v : Value}, heap.Shows v t → heap.Shows v u → t = u
  | .leaf _, _, _, .leaf flat, second => by
    cases second with
    | leaf => rfl
    | node => exact absurd rfl (flat _)
  | .node ts, _, _, .node _ items, second => by
    cases second with
    | leaf flat => exact absurd rfl (flat _)
    | node _ items' => rw [ShowAll.unique ts items items']

theorem ShowAll.unique : ∀ (ts : List Unfolding) {us : List Unfolding} {vs : List Value}, heap.ShowAll vs ts →
    heap.ShowAll vs us → ts = us
  | [], _, _, .nil, second => by
    cases second
    rfl
  | t :: ts, _, _, .cons first rest, second => by
    cases second with
    | cons first' rest' => rw [Shows.unique t first first', ShowAll.unique ts rest rest']

end

mutual

theorem Shows.extend (extends_ : heap.Extends later) : ∀ {t : Unfolding} {v : Value}, heap.Shows v t → later.Shows v t
  | .leaf _, _, .leaf flat => .leaf flat
  | .node _, _, .node known items => by
    refine .node (Nat.lt_of_lt_of_le known extends_.size_le) ?_
    rw [extends_.kept _ known]
    exact ShowAll.extend extends_ items

theorem ShowAll.extend (extends_ : heap.Extends later) : ∀ {ts : List Unfolding} {vs : List Value},
    heap.ShowAll vs ts → later.ShowAll vs ts
  | [], _, .nil => .nil
  | _ :: _, _, .cons first rest => .cons (Shows.extend extends_ first) (ShowAll.extend extends_ rest)

end

mutual

/-- The arrays around a value show higher trees, so they are others than those
within it, and all of them are in the heap. -/
theorem Shows.height_add_le : ∀ (t : Unfolding) {v : Value} {around : List Nat}, heap.Shows v t → around.Nodup →
    (∀ cell ∈ around, cell < heap.cells.size) →
    (∀ cell ∈ around, ∃ u, heap.Shows (.array cell) u ∧ t.height < u.height) →
    t.height + around.length ≤ heap.cells.size
  | .leaf _, _, around, _, distinct, known, _ => by
    rw [Unfolding.height, Nat.zero_add]
    exact length_le_of_nodup distinct known
  | .node ts, .array cell, around, .node here items, distinct, known, higher => by
    have new : cell ∉ around := by
      intro member
      obtain ⟨u, shown, higher⟩ := higher cell member
      rw [Shows.unique (.node ts) (.node here items) shown] at higher
      exact Nat.lt_irrefl _ higher
    have below := ShowAll.heights_add_le ts items (List.nodup_cons.2 ⟨new, distinct⟩)
      (List.forall_mem_cons.2 ⟨here, known⟩) ?_
    · rw [List.length_cons] at below
      rw [Unfolding.height]
      omega
    · refine List.forall_mem_cons.2 ⟨⟨_, .node here items, Nat.lt_succ_self _⟩, fun outer member => ?_⟩
      obtain ⟨u, shown, higher⟩ := higher outer member
      exact ⟨u, shown, Nat.lt_trans (Nat.lt_succ_self _) higher⟩

theorem ShowAll.heights_add_le : ∀ (ts : List Unfolding) {vs : List Value} {around : List Nat}, heap.ShowAll vs ts →
    around.Nodup → (∀ cell ∈ around, cell < heap.cells.size) →
    (∀ cell ∈ around, ∃ u, heap.Shows (.array cell) u ∧ Unfolding.heights ts < u.height) →
    Unfolding.heights ts + around.length ≤ heap.cells.size
  | [], _, around, .nil, distinct, known, _ => by
    rw [Unfolding.heights, Nat.zero_add]
    exact length_le_of_nodup distinct known
  | t :: ts, _, around, .cons first rest, distinct, known, higher => by
    have left := Shows.height_add_le t first distinct known fun cell member => by
      obtain ⟨u, shown, higher⟩ := higher cell member
      exact ⟨u, shown, Nat.lt_of_le_of_lt (Nat.le_max_left _ _) higher⟩
    have right := ShowAll.heights_add_le ts rest distinct known fun cell member => by
      obtain ⟨u, shown, higher⟩ := higher cell member
      exact ⟨u, shown, Nat.lt_of_le_of_lt (Nat.le_max_right _ _) higher⟩
    rw [Unfolding.heights]
    omega

end

theorem Shows.height_le_walkDepth {t : Unfolding} (shown : heap.Shows v t) : t.height ≤ heap.walkDepth := by
  have bound := Shows.height_add_le t shown List.nodup_nil (List.forall_mem_nil _) (List.forall_mem_nil _)
  exact Nat.le_succ_of_le bound

theorem ShowAll.heights_le_walkDepth {ts : List Unfolding} (shown : heap.ShowAll vs ts) :
    Unfolding.heights ts ≤ heap.walkDepth := by
  have bound := ShowAll.heights_add_le ts shown List.nodup_nil (List.forall_mem_nil _) (List.forall_mem_nil _)
  exact Nat.le_succ_of_le bound

theorem copy_new {cell : Nat} (same : (heap.copy v).2 = .array cell) : heap.cells.size ≤ cell := by
  cases v with
  | array old =>
    cases same
    exact (copyAll_extends heap.cells.size heap _).size_le
  | _ => cases same

structure KeptFrom (n : Nat) (heap later : Heap) : Prop where
  size_le : heap.cells.size ≤ later.cells.size
  kept : ∀ cell, n ≤ cell → cell < heap.cells.size → later.items cell = heap.items cell

theorem KeptFrom.refl (n : Nat) (heap : Heap) : heap.KeptFrom n heap :=
  ⟨le_rfl, fun _ _ _ => rfl⟩

theorem KeptFrom.mono {m n : Nat} (kept : KeptFrom n heap later) (le : n ≤ m) : KeptFrom m heap later :=
  ⟨kept.size_le, fun cell new => kept.kept cell (le.trans new)⟩

theorem Extends.keptFrom {mid : Heap} {n : Nat} (extends_ : heap.Extends mid) (kept : KeptFrom n mid later) :
    KeptFrom n heap later where
  size_le := extends_.size_le.trans kept.size_le
  kept cell new known := by
    rw [kept.kept cell new (Nat.lt_of_lt_of_le known extends_.size_le), extends_.kept cell known]

theorem copyAt_flat (flat : ∀ cell, v ≠ .array cell) (depth : Nat) : copyAt depth heap v = (heap, v) := by
  cases v with
  | array cell => exact absurd rfl (flat cell)
  | _ => cases depth <;> rfl

mutual

theorem Shows.copyAt : ∀ (t : Unfolding) {depth : Nat} {heap : Heap} {v : Value}, heap.Shows v t → t.height ≤ depth →
    ∀ later, KeptFrom heap.cells.size (Heap.copyAt depth heap v).1 later → later.Shows (Heap.copyAt depth heap v).2 t
  | .leaf _, depth, heap, _, .leaf flat, _, later, _ => by
    rw [copyAt_flat flat]
    exact .leaf flat
  | .node ts, depth, heap, .array cell, .node known items, enough, later, kept => by
    rw [Unfolding.height] at enough
    obtain ⟨depth, rfl⟩ : ∃ d, depth = d + 1 := ⟨depth - 1, by omega⟩
    have copied := ShowAll.copyNext ts items (Nat.le_of_succ_le_succ enough) le_rfl #[] [] fun _ _ => .nil
    rw [← copyAll_eq] at copied
    have grown := copyAll_extends depth heap (heap.items cell).toList
    generalize made : copyAll (Heap.copyAt depth) heap (heap.items cell).toList = result at copied grown
    obtain ⟨mid, elements⟩ := result
    have step : Heap.copyAt (depth + 1) heap (.array cell) = mid.alloc elements := by
      rw [Heap.copyAt, made]
    rw [step] at kept ⊢
    have new : mid.cells.size < (mid.alloc elements).1.cells.size := by
      rw [size_alloc]
      exact Nat.lt_succ_self _
    refine .node (Nat.lt_of_lt_of_le new kept.size_le) ?_
    rw [kept.kept _ grown.size_le new, items_alloc, if_pos rfl]
    exact copied later ((extends_alloc mid elements).keptFrom kept)

theorem ShowAll.copyNext : ∀ (ts : List Unfolding) {depth n : Nat} {heap : Heap} {vs : List Value}, heap.ShowAll vs ts →
    Unfolding.heights ts ≤ depth → n ≤ heap.cells.size → ∀ (done : Array Value) (us : List Unfolding),
    (∀ later, KeptFrom n heap later → later.ShowAll done.toList us) →
    ∀ later, KeptFrom n (vs.foldl (Heap.copyNext (Heap.copyAt depth)) (heap, done)).1 later →
      later.ShowAll (vs.foldl (Heap.copyNext (Heap.copyAt depth)) (heap, done)).2.toList (us ++ ts)
  | [], depth, n, heap, _, .nil, _, _, done, us, earlier, later, kept => by
    rw [List.append_nil]
    exact earlier later kept
  | t :: ts, depth, n, heap, v :: _, .cons first rest, enough, old, done, us, earlier, later, kept => by
    rw [Unfolding.heights, Nat.max_le] at enough
    have grown := copyAt_extends depth heap v
    have all := ShowAll.copyNext ts (ShowAll.extend grown rest) enough.2 (old.trans grown.size_le)
      (done.push (Heap.copyAt depth heap v).2) (us ++ [t]) fun after kept' => by
        rw [Array.toList_push]
        have here := Shows.copyAt t first enough.1 after (kept'.mono old)
        exact (earlier after (grown.keptFrom kept')).append (.cons here .nil)
    rw [List.append_assoc] at all
    exact all later kept

end

theorem Shows.copy_later {t : Unfolding} (shown : heap.Shows v t)
    (kept : KeptFrom heap.cells.size (heap.copy v).1 later) : later.Shows (heap.copy v).2 t :=
  Shows.copyAt t shown shown.height_le_walkDepth later kept

theorem Shows.copy {t : Unfolding} (shown : heap.Shows v t) : (heap.copy v).1.Shows (heap.copy v).2 t :=
  shown.copy_later (.refl _ _)

theorem Forest.shows (forest : heap.Forest) (known : ∀ cell, v = .array cell → cell < heap.cells.size) :
    ∃ t, heap.Shows v t := by
  have made {depth : Nat} (within : heap.Within depth v) : heap.MadeOf (fun _ => True) v := by
    induction depth generalizing v with
    | zero =>
      cases v with
      | array cell => exact within.elim
      | _ => exact .leaf nofun trivial
    | succ depth ih =>
      cases v with
      | array cell =>
        have items : ∀ w ∈ (heap.items cell).toList, heap.MadeOf (fun _ => True) w := by
          intro w member
          rw [Array.mem_toList_iff] at member
          refine ih (fun inner same => forest.allocated cell inner ?_) (within w member)
          rw [Holds, ← same]
          exact member
        obtain ⟨ts, shown, all⟩ := exists_showAll_of_madeOf items
        exact ⟨.node ts, .node (known cell rfl) shown, all⟩
      | _ => exact .leaf nofun trivial
  obtain ⟨t, shown, -⟩ := made (forest.within v)
  exact ⟨t, shown⟩

variable {heap' : Heap}

def Alike (heap heap' : Heap) (v w : Value) : Prop :=
  ∃ t, heap.Shows v t ∧ heap'.Shows w t

theorem ShowAll.alike {vs ws : List Value} {ts : List Unfolding} (shown : heap.ShowAll vs ts)
    (shown' : heap'.ShowAll ws ts) : List.Forall₂ (Alike heap heap') vs ws := by
  induction ts generalizing vs ws with
  | nil =>
    cases shown
    cases shown'
    exact .nil
  | cons t ts ih =>
    cases shown with
    | cons first rest =>
      cases shown' with
      | cons first' rest' => exact .cons ⟨t, first, first'⟩ (ih rest rest')

theorem Alike.eq {v w : Value} (alike : Alike heap heap' v w) (flat : ∀ cell, v ≠ .array cell) : v = w := by
  obtain ⟨t, shown, shown'⟩ := alike
  cases shown with
  | leaf =>
    cases shown'
    rfl
  | node => exact absurd rfl (flat _)

theorem eq_of_alike {vs ws : List Value} (alike : List.Forall₂ (Alike heap heap') vs ws)
    (flat : ∀ v ∈ vs, ∀ cell, v ≠ .array cell) : vs = ws := by
  induction alike with
  | nil => rfl
  | cons first _ ih =>
    obtain ⟨here, later⟩ := List.forall_mem_cons.1 flat
    rw [first.eq here, ih later]

end Heap

namespace Heap

/-- What has happened since: the arrays that were there are as before, and new
ones hold new ones only. -/
structure Framed (heap later : Heap) : Prop where
  extends_ : heap.Extends later
  forest : later.Forest
  apart : ∀ outer inner, later.Holds outer inner → heap.cells.size ≤ outer → heap.cells.size ≤ inner

variable {heap mid later : Heap} {S : Nat → Prop}

theorem Framed.refl (forest : heap.Forest) : heap.Framed heap where
  extends_ := .refl heap
  forest := forest
  apart _ _ holds known := absurd holds.lt (Nat.not_lt.2 known)

theorem Copied.framed {vs : List Value} (copied : heap.Copied later vs) : heap.Framed later :=
  ⟨copied.extends_, copied.forest, copied.apart⟩

theorem Framed.trans (first : heap.Framed mid) (second : mid.Framed later) : heap.Framed later where
  extends_ := first.extends_.trans second.extends_
  forest := second.forest
  apart outer inner holds known := by
    by_cases old : outer < mid.cells.size
    · rw [Holds, second.extends_.kept outer old] at holds
      exact first.apart outer inner holds known
    · exact first.extends_.size_le.trans (second.apart outer inner holds (Nat.le_of_not_lt old))

def Encloses (heap : Heap) (S : Nat → Prop) : Prop :=
  ∀ outer inner, heap.Holds outer inner → S inner → S outer

theorem Framed.encloses (framed : heap.Framed later) (encloses : heap.Encloses S)
    (known : ∀ cell, S cell → cell < heap.cells.size) : later.Encloses S := by
  intro outer inner holds inside
  by_cases old : outer < heap.cells.size
  · rw [Holds, framed.extends_.kept outer old] at holds
    exact encloses outer inner holds inside
  · have new := framed.apart outer inner holds (Nat.le_of_not_lt old)
    exact absurd (known inner inside) (Nat.not_lt.2 new)

theorem Encloses.alloc {T : Nat → Prop} (encloses : heap.Encloses S)
    (allocated : ∀ outer inner, heap.Holds outer inner → inner < heap.cells.size) {elements : Array Value}
    (split : ∀ cell, T cell ↔ S cell ∨ cell = heap.cells.size) : (heap.alloc elements).1.Encloses T := by
  intro outer inner holds inside
  rcases holds_alloc holds with old | ⟨new, -⟩
  · refine (split outer).2 (Or.inl (encloses outer inner old ?_))
    exact ((split inner).1 inside).resolve_right (Nat.ne_of_lt (allocated outer inner old))
  · exact (split outer).2 (Or.inr new)

theorem allocated_alloc (allocated : ∀ outer inner, heap.Holds outer inner → inner < heap.cells.size)
    {elements : Array Value} (known : ∀ inner, .array inner ∈ elements.toList → inner < heap.cells.size) :
    ∀ outer inner, (heap.alloc elements).1.Holds outer inner → inner < (heap.alloc elements).1.cells.size := by
  intro outer inner holds
  rw [size_alloc]
  rcases holds_alloc holds with old | ⟨-, member⟩
  · exact Nat.lt_succ_of_lt (allocated outer inner old)
  · exact Nat.lt_succ_of_lt (known inner (Array.mem_toList_iff.2 member))

section

variable {cell : Nat} {f : Array Value → Array Value}

theorem holds_changed (known : cell < heap.cells.size) {outer inner : Nat}
    (holds : (heap.change cell f).Holds outer inner) :
    (outer = cell ∧ .array inner ∈ f (heap.items cell)) ∨ (outer ≠ cell ∧ heap.Holds outer inner) := by
  rw [Holds, items_change known] at holds
  split at holds
  next same => exact Or.inl ⟨same, same ▸ holds⟩
  next other => exact Or.inr ⟨other, holds⟩

theorem Encloses.change (encloses : heap.Encloses S) (inside : S cell) (known : cell < heap.cells.size) :
    (heap.change cell f).Encloses S := by
  intro outer inner holds within
  rcases holds_changed known holds with ⟨rfl, -⟩ | ⟨-, old⟩
  · exact inside
  · exact encloses outer inner old within

theorem Framed.change {v : Value} (framed : heap.Framed later) (known : cell < later.cells.size)
    (above : heap.cells.size ≤ cell) (adds : Adds v f) (forest : (later.change cell f).Forest)
    (new : ∀ inner, v = .array inner → heap.cells.size ≤ inner) : heap.Framed (later.change cell f) := by
  refine ⟨⟨?_, ?_⟩, forest, ?_⟩
  · rw [size_change]
    exact framed.extends_.size_le
  · intro old before
    rw [items_change known, if_neg (Nat.ne_of_lt (Nat.lt_of_lt_of_le before above))]
    exact framed.extends_.kept old before
  · intro outer inner holds outside
    rcases holds_change adds known holds with old | ⟨-, added⟩
    · exact framed.apart outer inner old outside
    · exact new inner added

theorem allocated_change (allocated : ∀ outer inner, heap.Holds outer inner → inner < heap.cells.size)
    (here : cell < heap.cells.size)
    (known : ∀ inner, .array inner ∈ (f (heap.items cell)).toList → inner < heap.cells.size) :
    ∀ outer inner, (heap.change cell f).Holds outer inner → inner < (heap.change cell f).cells.size := by
  intro outer inner holds
  rw [size_change]
  rcases holds_changed here holds with ⟨-, member⟩ | ⟨-, old⟩
  · exact known inner (Array.mem_toList_iff.2 member)
  · exact allocated outer inner old

end

mutual

theorem Shows.change (encloses : heap.Encloses S) {cell : Nat} (live : S cell) (known : cell < heap.cells.size)
    (f : Array Value → Array Value) : ∀ {t : Unfolding} {v : Value}, heap.Shows v t →
    (∀ root, v = .array root → ¬S root) → (heap.change cell f).Shows v t
  | .leaf _, _, .leaf flat, _ => .leaf flat
  | .node _, .array root, .node here items, still => by
    have other : root ≠ cell := fun same => still root rfl (same ▸ live)
    have within := ShowAll.change encloses live known f items fun v member inner same inside => by
      refine still root rfl (encloses root inner ?_ inside)
      rw [Holds, ← same]
      exact Array.mem_toList_iff.1 member
    refine .node (by rwa [size_change]) ?_
    rwa [items_change known, if_neg other]

theorem ShowAll.change (encloses : heap.Encloses S) {cell : Nat} (live : S cell) (known : cell < heap.cells.size)
    (f : Array Value → Array Value) : ∀ {ts : List Unfolding} {vs : List Value}, heap.ShowAll vs ts →
    (∀ v ∈ vs, ∀ root, v = .array root → ¬S root) → (heap.change cell f).ShowAll vs ts
  | [], _, .nil, _ => .nil
  | _ :: _, _, .cons first rest, still =>
    .cons (Shows.change encloses live known f first (still _ List.mem_cons_self))
      (ShowAll.change encloses live known f rest fun v member => still v (List.mem_cons_of_mem _ member))

end

variable {heap' : Heap} {v w : Value}

theorem Shows.kind_eq {t : Unfolding} (shown : heap.Shows v t) (shown' : heap'.Shows w t) : w.kind = v.kind := by
  cases shown with
  | leaf =>
    cases shown'
    rfl
  | node =>
    cases shown'
    rfl

mutual

theorem Shows.displayAt_eq (t : Unfolding) {v w : Value} {depth depth' : Nat} (shown : heap.Shows v t)
    (shown' : heap'.Shows w t) (enough : t.height ≤ depth) (enough' : t.height ≤ depth') :
    heap'.displayAt depth' w = heap.displayAt depth v := by
  match t with
  | .leaf _ =>
    cases shown with
    | leaf flat =>
      cases shown'
      cases v with
      | array cell => exact absurd rfl (flat cell)
      | _ => cases depth <;> cases depth' <;> rfl
  | .node ts =>
    cases shown with
    | node _ items =>
      cases shown' with
      | node _ items' =>
        rw [Unfolding.height] at enough enough'
        obtain ⟨depth, rfl⟩ : ∃ d, depth = d + 1 := ⟨depth - 1, by omega⟩
        obtain ⟨depth', rfl⟩ : ∃ d, depth' = d + 1 := ⟨depth' - 1, by omega⟩
        have same := ShowAll.map_displayAt_eq ts items items' (Nat.le_of_succ_le_succ enough)
          (Nat.le_of_succ_le_succ enough')
        simp only [displayAt]
        congr 3

theorem ShowAll.map_displayAt_eq (ts : List Unfolding) {vs ws : List Value} {depth depth' : Nat}
    (shown : heap.ShowAll vs ts) (shown' : heap'.ShowAll ws ts) (enough : Unfolding.heights ts ≤ depth)
    (enough' : Unfolding.heights ts ≤ depth') :
    ws.map (fun w => match w with | .string s => Text.quote s | w => heap'.displayAt depth' w) =
      vs.map (fun v => match v with | .string s => Text.quote s | v => heap.displayAt depth v) := by
  match ts with
  | [] =>
    cases shown
    cases shown'
    rfl
  | t :: ts =>
    cases shown with
    | @cons v _ _ _ first rest =>
      cases shown' with
      | cons first' rest' =>
        rw [Unfolding.heights, Nat.max_le] at enough enough'
        have here := Shows.displayAt_eq t first first' enough.1 enough'.1
        have later := ShowAll.map_displayAt_eq ts rest rest' enough.2 enough'.2
        rw [List.map_cons, List.map_cons, later]
        congr 1
        cases first with
        | leaf =>
          cases first'
          cases v with
          | string s => rfl
          | _ => exact here
        | node =>
          cases first' with
          | node => exact here

end

theorem equalAt_leaf {a b b' : Value} {u : Unfolding} {depth depth' : Nat} (flat : ∀ cell, a ≠ .array cell)
    (shown : heap.Shows b u) (shown' : heap'.Shows b' u) : heap'.equalAt depth' a b' = heap.equalAt depth a b := by
  cases shown with
  | leaf other =>
    cases shown'
    cases a with
    | array cell => exact absurd rfl (flat cell)
    | _ =>
      cases b with
      | array cell => exact absurd rfl (other cell)
      | _ => cases depth <;> cases depth' <;> rfl
  | node =>
    cases shown' with
    | node =>
      cases a with
      | array cell => exact absurd rfl (flat cell)
      | _ => cases depth <;> cases depth' <;> rfl

theorem equalAt_array_leaf {b : Value} {cell cell' depth depth' : Nat} (flat : ∀ cell, b ≠ .array cell) :
    heap'.equalAt depth' (.array cell') b = heap.equalAt depth (.array cell) b := by
  cases b with
  | array inner => exact absurd rfl (flat inner)
  | _ => cases depth <;> cases depth' <;> rfl

mutual

theorem Shows.equalAt_eq (t : Unfolding) {u : Unfolding} {a b a' b' : Value} {depth depth' : Nat}
    (first : heap.Shows a t) (first' : heap'.Shows a' t) (second : heap.Shows b u) (second' : heap'.Shows b' u)
    (enough : t.height ≤ depth) (enough' : t.height ≤ depth') :
    heap'.equalAt depth' a' b' = heap.equalAt depth a b := by
  match t with
  | .leaf _ =>
    cases first with
    | leaf flat =>
      cases first'
      exact equalAt_leaf flat second second'
  | .node ts =>
    cases first with
    | @node cell _ _ items =>
      cases first' with
      | @node cell' _ _ items' =>
        rw [Unfolding.height] at enough enough'
        obtain ⟨depth, rfl⟩ : ∃ d, depth = d + 1 := ⟨depth - 1, by omega⟩
        obtain ⟨depth', rfl⟩ : ∃ d, depth' = d + 1 := ⟨depth' - 1, by omega⟩
        cases second with
        | leaf flat =>
          cases second'
          exact equalAt_array_leaf flat
        | @node inner us _ others =>
          cases second' with
          | @node inner' _ _ others' =>
            have size {h : Heap} {c : Nat} {ts : List Unfolding} (shown : h.ShowAll (h.items c).toList ts) :
                (h.items c).size = ts.length := shown.length_eq
            have all := ShowAll.allEqual_eq ts items items' others others' (Nat.le_of_succ_le_succ enough)
              (Nat.le_of_succ_le_succ enough')
            rw [equalAt_arrays, equalAt_arrays, size items, size items', size others, size others', all]

theorem ShowAll.allEqual_eq (ts : List Unfolding) {us : List Unfolding} {as bs as' bs' : List Value}
    {depth depth' : Nat} (first : heap.ShowAll as ts) (first' : heap'.ShowAll as' ts) (second : heap.ShowAll bs us)
    (second' : heap'.ShowAll bs' us) (enough : Unfolding.heights ts ≤ depth)
    (enough' : Unfolding.heights ts ≤ depth') :
    allEqual (fun x y => if x.kind ≠ y.kind then .ok false else heap'.equalAt depth' x y) as' bs' =
      allEqual (fun x y => if x.kind ≠ y.kind then .ok false else heap.equalAt depth x y) as bs := by
  match ts with
  | [] =>
    cases first
    cases first'
    rfl
  | t :: ts =>
    cases first with
    | cons here rest =>
      cases first' with
      | cons here' rest' =>
        cases second with
        | nil =>
          cases second'
          rfl
        | cons other others =>
          cases second' with
          | cons other' others' =>
            rw [Unfolding.heights, Nat.max_le] at enough enough'
            have same := Shows.equalAt_eq t here here' other other' enough.1 enough'.1
            have later := ShowAll.allEqual_eq ts rest rest' others others' enough.2 enough'.2
            simp only [allEqual, same, later, here.kind_eq here', other.kind_eq other']

end

end Heap

end ScriptKernel
