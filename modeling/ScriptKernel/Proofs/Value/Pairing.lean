import ScriptKernel.Proofs.Value.Trees

/-!
Two heaps side by side. Two runs of the same code make the same arrays, but not
at the same places, so what is compared are arrays that go together. Of these
the live ones go with each other only, and an array that holds one is live
itself: a change of both sides keeps all pairs together, and whatever is not
live stays as it is.
-/

namespace ScriptKernel

open Heap (Alike Framed Extends)

/-- Which arrays of two heaps go together, and which of these are live. -/
structure Pairing where
  pairs : Nat → Nat → Prop
  live : Nat → Nat → Prop

namespace Pairing

inductive Ties (p : Pairing) : Value → Value → Prop
  | flat {v : Value} (flat : ∀ cell, v ≠ .array cell) : Ties p v v
  | array {cell cell' : Nat} (pair : p.pairs cell cell') : Ties p (.array cell) (.array cell')

instance : Preorder Pairing where
  le p q := ∀ cell cell', p.pairs cell cell' → q.pairs cell cell'
  le_refl _ _ _ := id
  le_trans _ _ _ first second cell cell' pair := second cell cell' (first cell cell' pair)

variable {p q r : Pairing} {heap heap' mid mid' later later' : Heap} {v w : Value}

theorem Ties.mono (ties : p.Ties v w) (le : p ≤ q) : q.Ties v w := by
  cases ties with
  | flat flat => exact .flat flat
  | array pair => exact .array (le _ _ pair)

theorem ties_mono {vs ws : List Value} (ties : List.Forall₂ p.Ties vs ws) (le : p ≤ q) : List.Forall₂ q.Ties vs ws :=
  ties.imp fun _ _ tied => tied.mono le

/-- The arrays of the first heap that are live, and those of the second. -/
def Left (p : Pairing) (cell : Nat) : Prop :=
  ∃ cell', p.live cell cell'

def Right (p : Pairing) (cell' : Nat) : Prop :=
  ∃ cell, p.live cell cell'

/-- What goes together is in the heaps and has elements that go together, and
what is live goes together with one array only. -/
structure Fits (p : Pairing) (heap heap' : Heap) : Prop where
  pair : ∀ {cell cell'}, p.live cell cell' → p.pairs cell cell'
  known : ∀ {cell cell'}, p.pairs cell cell' → cell < heap.cells.size ∧ cell' < heap'.cells.size
  items : ∀ {cell cell'}, p.pairs cell cell' →
    List.Forall₂ p.Ties (heap.items cell).toList (heap'.items cell').toList
  only : ∀ {cell cell' other}, p.live cell cell' → p.pairs cell other → other = cell'
  only' : ∀ {cell cell' other}, p.live cell cell' → p.pairs other cell' → other = cell
  around : heap.Encloses p.Left
  around' : heap'.Encloses p.Right
  allocated : ∀ outer inner, heap.Holds outer inner → inner < heap.cells.size
  allocated' : ∀ outer inner, heap'.Holds outer inner → inner < heap'.cells.size

namespace Fits

theorem known_left (fits : p.Fits heap heap') {cell : Nat} (left : p.Left cell) : cell < heap.cells.size := by
  obtain ⟨cell', live⟩ := left
  exact (fits.known (fits.pair live)).1

theorem known_right (fits : p.Fits heap heap') {cell' : Nat} (right : p.Right cell') : cell' < heap'.cells.size := by
  obtain ⟨cell, live⟩ := right
  exact (fits.known (fits.pair live)).2

theorem known_value (fits : p.Fits heap heap') (ties : p.Ties v w) (cell : Nat) (same : v = .array cell) :
    cell < heap.cells.size := by
  cases ties with
  | flat flat => exact absurd same (flat cell)
  | array pair =>
    cases same
    exact (fits.known pair).1

theorem known_value' (fits : p.Fits heap heap') (ties : p.Ties v w) (cell' : Nat) (same : w = .array cell') :
    cell' < heap'.cells.size := by
  cases ties with
  | flat flat => exact absurd same (flat cell')
  | array pair =>
    cases same
    exact (fits.known pair).2

mutual

theorem shows (fits : p.Fits heap heap') (t : Unfolding) {v w : Value} (ties : p.Ties v w) (shown : heap.Shows v t) :
    heap'.Shows w t := by
  match t with
  | .leaf _ =>
    cases shown with
    | leaf flat =>
      cases ties with
      | flat => exact .leaf flat
      | array => exact absurd rfl (flat _)
  | .node ts =>
    cases shown with
    | node known items =>
      cases ties with
      | flat flat => exact absurd rfl (flat _)
      | array pair => exact .node (fits.known pair).2 (showAll fits ts (fits.items pair) items)

theorem showAll (fits : p.Fits heap heap') (ts : List Unfolding) {vs ws : List Value}
    (ties : List.Forall₂ p.Ties vs ws) (shown : heap.ShowAll vs ts) : heap'.ShowAll ws ts := by
  match ts with
  | [] =>
    cases shown
    cases ties
    exact .nil
  | t :: ts =>
    cases shown with
    | cons first rest =>
      cases ties with
      | cons here later => exact .cons (shows fits t here first) (showAll fits ts later rest)

end

theorem alike (fits : p.Fits heap heap') (forest : heap.Forest) (ties : p.Ties v w) : Alike heap heap' v w := by
  obtain ⟨t, shown⟩ := forest.shows (fits.known_value ties)
  exact ⟨t, shown, fits.shows t ties shown⟩

end Fits

/-- Both heaps have grown, the new arrays of the first being live. -/
structure Grows (p : Pairing) (heap heap' : Heap) (q : Pairing) (later later' : Heap) : Prop where
  le : p ≤ q
  fits : q.Fits later later'
  extends_ : heap.Extends later
  extends_' : heap'.Extends later'
  live : ∀ {cell cell'}, p.live cell cell' → q.live cell cell'
  old : ∀ {cell cell'}, q.live cell cell' →
    p.live cell cell' ∨ (heap.cells.size ≤ cell ∧ heap'.cells.size ≤ cell')
  new : ∀ {cell}, heap.cells.size ≤ cell → cell < later.cells.size → q.Left cell

theorem Grows.refl (fits : p.Fits heap heap') : Grows p heap heap' p heap heap' where
  le := le_refl p
  fits := fits
  extends_ := .refl heap
  extends_' := .refl heap'
  live := id
  old live := Or.inl live
  new above below := absurd below (Nat.not_lt.2 above)

theorem Grows.trans (first : Grows p heap heap' q mid mid') (second : Grows q mid mid' r later later') :
    Grows p heap heap' r later later' where
  le := le_trans first.le second.le
  fits := second.fits
  extends_ := first.extends_.trans second.extends_
  extends_' := first.extends_'.trans second.extends_'
  live before := second.live (first.live before)
  old live := by
    rcases second.old live with before | ⟨above, above'⟩
    · exact first.old before
    · exact Or.inr ⟨first.extends_.size_le.trans above, first.extends_'.size_le.trans above'⟩
  new := by
    intro cell above below
    by_cases old : cell < mid.cells.size
    · obtain ⟨cell', live⟩ := first.new above old
      exact ⟨cell', second.live live⟩
    · exact second.new (Nat.le_of_not_lt old) below

def add (p : Pairing) (left right : Nat) : Pairing where
  pairs cell cell' := p.pairs cell cell' ∨ (cell = left ∧ cell' = right)
  live cell cell' := p.live cell cell' ∨ (cell = left ∧ cell' = right)

theorem le_add (p : Pairing) (left right : Nat) : p ≤ p.add left right :=
  fun _ _ => Or.inl

theorem left_add (cell left right : Nat) : (p.add left right).Left cell ↔ p.Left cell ∨ cell = left := by
  constructor
  · rintro ⟨cell', live | ⟨same, -⟩⟩
    · exact Or.inl ⟨cell', live⟩
    · exact Or.inr same
  · rintro (⟨cell', live⟩ | same)
    · exact ⟨cell', Or.inl live⟩
    · exact ⟨right, Or.inr ⟨same, rfl⟩⟩

theorem right_add (cell' left right : Nat) : (p.add left right).Right cell' ↔ p.Right cell' ∨ cell' = right := by
  constructor
  · rintro ⟨cell, live | ⟨-, same⟩⟩
    · exact Or.inl ⟨cell, live⟩
    · exact Or.inr same
  · rintro (⟨cell, live⟩ | same)
    · exact ⟨cell, Or.inl live⟩
    · exact ⟨left, Or.inr ⟨rfl, same⟩⟩

theorem Fits.known_values (fits : p.Fits heap heap') {vs ws : List Value} (ties : List.Forall₂ p.Ties vs ws) :
    (∀ cell, .array cell ∈ vs → cell < heap.cells.size) ∧ ∀ cell, .array cell ∈ ws → cell < heap'.cells.size := by
  induction ties with
  | nil => exact ⟨nofun, nofun⟩
  | cons first _ ih =>
    constructor
    · intro cell member
      rcases List.mem_cons.1 member with same | later
      · exact fits.known_value first cell same.symm
      · exact ih.1 cell later
    · intro cell member
      rcases List.mem_cons.1 member with same | later
      · exact fits.known_value' first cell same.symm
      · exact ih.2 cell later

theorem Fits.alloc (fits : p.Fits heap heap') {elements elements' : Array Value}
    (ties : List.Forall₂ p.Ties elements.toList elements'.toList) :
    Grows p heap heap' (p.add heap.cells.size heap'.cells.size) (heap.alloc elements).1 (heap'.alloc elements').1 := by
  have before {cell cell' : Nat} (pair : p.pairs cell cell') :
      cell ≠ heap.cells.size ∧ cell' ≠ heap'.cells.size :=
    ⟨Nat.ne_of_lt (fits.known pair).1, Nat.ne_of_lt (fits.known pair).2⟩
  have known := fits.known_values ties
  refine ⟨le_add p _ _, ?fits, heap.extends_alloc elements, heap'.extends_alloc elements', Or.inl, ?old, ?new⟩
  case fits =>
    constructor
    case pair =>
      rintro cell cell' (live | new)
      · exact Or.inl (fits.pair live)
      · exact Or.inr new
    case known =>
      rintro cell cell' (pair | ⟨rfl, rfl⟩)
      · rw [Heap.size_alloc, Heap.size_alloc]
        exact ⟨Nat.lt_succ_of_lt (fits.known pair).1, Nat.lt_succ_of_lt (fits.known pair).2⟩
      · rw [Heap.size_alloc, Heap.size_alloc]
        exact ⟨Nat.lt_succ_self _, Nat.lt_succ_self _⟩
    case items =>
      rintro cell cell' (pair | ⟨rfl, rfl⟩)
      · rw [Heap.items_alloc, if_neg (before pair).1, Heap.items_alloc, if_neg (before pair).2]
        exact ties_mono (fits.items pair) (le_add p _ _)
      · rw [Heap.items_alloc, if_pos rfl, Heap.items_alloc, if_pos rfl]
        exact ties_mono ties (le_add p _ _)
    case only =>
      rintro cell cell' other (live | ⟨rfl, rfl⟩) (pair | ⟨same, rfl⟩)
      · exact fits.only live pair
      · exact absurd same (before (fits.pair live)).1
      · exact absurd rfl (before pair).1
      · rfl
    case only' =>
      rintro cell cell' other (live | ⟨rfl, rfl⟩) (pair | ⟨rfl, same⟩)
      · exact fits.only' live pair
      · exact absurd same (before (fits.pair live)).2
      · exact absurd rfl (before pair).2
      · rfl
    case around => exact fits.around.alloc fits.allocated fun cell => left_add cell _ _
    case around' => exact fits.around'.alloc fits.allocated' fun cell => right_add cell _ _
    case allocated => exact Heap.allocated_alloc fits.allocated known.1
    case allocated' => exact Heap.allocated_alloc fits.allocated' known.2
  case old =>
    rintro cell cell' (live | ⟨rfl, rfl⟩)
    · exact Or.inl live
    · exact Or.inr ⟨le_rfl, le_rfl⟩
  case new =>
    intro cell above below
    rw [Heap.size_alloc] at below
    exact (left_add cell _ _).2 (Or.inr (Nat.le_antisymm (Nat.le_of_lt_succ below) above))

theorem ties_alloc (heap heap' : Heap) (elements elements' : Array Value) :
    (p.add heap.cells.size heap'.cells.size).Ties (heap.alloc elements).2 (heap'.alloc elements').2 :=
  .array (Or.inr ⟨rfl, rfl⟩)

/-- Copying the values makes copies that go together, wherever the heaps have
grown to. -/
def Copies (p : Pairing) (heap heap' : Heap) (copy copy' : Heap → Value → Heap × Value) (v w : Value) : Prop :=
  ∀ q mid mid', Grows p heap heap' q mid mid' →
    ∃ r, Grows q mid mid' r (copy mid v).1 (copy' mid' w).1 ∧ r.Ties (copy mid v).2 (copy' mid' w).2

theorem copyAll_grows (fits : p.Fits heap heap') {copy copy' : Heap → Value → Heap × Value} {vs ws : List Value}
    (each : List.Forall₂ (Copies p heap heap' copy copy') vs ws) :
    ∃ q, Grows p heap heap' q (Heap.copyAll copy heap vs).1 (Heap.copyAll copy' heap' ws).1 ∧
      List.Forall₂ q.Ties (Heap.copyAll copy heap vs).2.toList (Heap.copyAll copy' heap' ws).2.toList := by
  have from_ (q : Pairing) (mid mid' : Heap) (done done' : Array Value) (grows : Grows p heap heap' q mid mid')
      (ties : List.Forall₂ q.Ties done.toList done'.toList) :
      let result := vs.foldl (Heap.copyNext copy) (mid, done)
      let result' := ws.foldl (Heap.copyNext copy') (mid', done')
      ∃ r, Grows p heap heap' r result.1 result'.1 ∧ List.Forall₂ r.Ties result.2.toList result'.2.toList := by
    induction each generalizing q mid mid' done done' with
    | nil => exact ⟨q, grows, ties⟩
    | @cons v w vs ws first _ ih =>
      obtain ⟨r, grows', tied⟩ := first q mid mid' grows
      apply ih r _ _ _ _ (grows.trans grows')
      rw [Array.toList_push, Array.toList_push]
      exact List.rel_append (ties_mono ties grows'.le) (.cons tied .nil)
  rw [Heap.copyAll_eq, Heap.copyAll_eq]
  exact from_ p heap heap' #[] #[] (.refl fits) .nil

mutual

theorem copyAt_copies (t : Unfolding) {depth depth' : Nat} (fits : p.Fits heap heap') {v w : Value}
    (ties : p.Ties v w) (shown : heap.Shows v t) (enough : t.height ≤ depth) (enough' : t.height ≤ depth') :
    Copies p heap heap' (Heap.copyAt depth) (Heap.copyAt depth') v w := by
  intro q mid mid' grows
  match t with
  | .leaf _ =>
    cases shown with
    | leaf flat =>
      cases ties with
      | flat =>
        rw [Heap.copyAt_flat flat, Heap.copyAt_flat flat]
        exact ⟨q, .refl grows.fits, .flat flat⟩
      | array => exact absurd rfl (flat _)
  | .node ts =>
    cases shown with
    | @node cell _ known items =>
      cases ties with
      | flat flat => exact absurd rfl (flat _)
      | @array _ cell' pair =>
        rw [Unfolding.height] at enough enough'
        obtain ⟨depth, rfl⟩ : ∃ d, depth = d + 1 := ⟨depth - 1, by omega⟩
        obtain ⟨depth', rfl⟩ : ∃ d, depth' = d + 1 := ⟨depth' - 1, by omega⟩
        have each := copyAt_copiesAll ts fits (fits.items pair) items (Nat.le_of_succ_le_succ enough)
          (Nat.le_of_succ_le_succ enough')
        rw [← grows.extends_.kept cell known, ← grows.extends_'.kept cell' (fits.known pair).2] at each
        obtain ⟨r, grows', tied⟩ := copyAll_grows grows.fits
          (each.imp fun _ _ copies q' mid mid' further => copies q' mid mid' (grows.trans further))
        refine ⟨_, grows'.trans (grows'.fits.alloc tied), ties_alloc _ _ _ _⟩

theorem copyAt_copiesAll (ts : List Unfolding) {depth depth' : Nat} (fits : p.Fits heap heap') {vs ws : List Value}
    (ties : List.Forall₂ p.Ties vs ws) (shown : heap.ShowAll vs ts) (enough : Unfolding.heights ts ≤ depth)
    (enough' : Unfolding.heights ts ≤ depth') :
    List.Forall₂ (Copies p heap heap' (Heap.copyAt depth) (Heap.copyAt depth')) vs ws := by
  match ts with
  | [] =>
    cases shown
    cases ties
    exact .nil
  | t :: ts =>
    rw [Unfolding.heights, Nat.max_le] at enough enough'
    cases shown with
    | cons first rest =>
      cases ties with
      | cons here later =>
        exact .cons (copyAt_copies t fits here first enough.1 enough'.1)
          (copyAt_copiesAll ts fits later rest enough.2 enough'.2)

end

theorem Fits.copy (fits : p.Fits heap heap') (forest : heap.Forest) (ties : p.Ties v w) :
    ∃ q, Grows p heap heap' q (heap.copy v).1 (heap'.copy w).1 ∧ q.Ties (heap.copy v).2 (heap'.copy w).2 := by
  obtain ⟨t, shown⟩ := forest.shows (fits.known_value ties)
  exact copyAt_copies t fits ties shown shown.height_le_walkDepth (fits.shows t ties shown).height_le_walkDepth
    p heap heap' (.refl fits)

theorem Fits.copies (fits : p.Fits heap heap') (forest : heap.Forest) {vs ws : List Value}
    (ties : List.Forall₂ p.Ties vs ws) :
    ∃ q, Grows p heap heap' q (heap.copies vs).1 (heap'.copies ws).1 ∧
      List.Forall₂ q.Ties (heap.copies vs).2.toList (heap'.copies ws).2.toList := by
  refine copyAll_grows fits (ties.imp fun v w tied q mid mid' grows => ?_)
  obtain ⟨t, shown⟩ := forest.shows (fits.known_value tied)
  have shown := Heap.Shows.extend grows.extends_ shown
  exact copyAt_copies t grows.fits (tied.mono grows.le) shown shown.height_le_walkDepth
    (grows.fits.shows t (tied.mono grows.le) shown).height_le_walkDepth q mid mid' (.refl grows.fits)

theorem Fits.change (fits : p.Fits heap heap') {cell cell' : Nat} (live : p.live cell cell')
    {f f' : Array Value → Array Value}
    (ties : List.Forall₂ p.Ties (f (heap.items cell)).toList (f' (heap'.items cell')).toList) :
    p.Fits (heap.change cell f) (heap'.change cell' f') := by
  obtain ⟨here, here'⟩ := fits.known (fits.pair live)
  have known := fits.known_values ties
  constructor
  case pair => exact fits.pair
  case known =>
    intro cell cell' pair
    rw [Heap.size_change, Heap.size_change]
    exact fits.known pair
  case items =>
    intro left right pair
    rw [Heap.items_change here, Heap.items_change here']
    by_cases same : left = cell
    · subst same
      obtain rfl := fits.only live pair
      rw [if_pos rfl, if_pos rfl]
      exact ties
    · have other : right ≠ cell' := by
        rintro rfl
        exact same (fits.only' live pair)
      rw [if_neg same, if_neg other]
      exact fits.items pair
  case only => exact fits.only
  case only' => exact fits.only'
  case around => exact fits.around.change ⟨cell', live⟩ here
  case around' => exact fits.around'.change ⟨cell, live⟩ here'
  case allocated => exact Heap.allocated_change fits.allocated here known.1
  case allocated' => exact Heap.allocated_change fits.allocated' here' known.2

theorem ties_push {xs ys : Array Value} (ties : List.Forall₂ p.Ties xs.toList ys.toList) (tied : p.Ties v w) :
    List.Forall₂ p.Ties (xs.push v).toList (ys.push w).toList := by
  rw [Array.toList_push, Array.toList_push]
  exact List.rel_append ties (.cons tied .nil)

theorem ties_set {xs ys : Array Value} (ties : List.Forall₂ p.Ties xs.toList ys.toList) (tied : p.Ties v w)
    (i : Nat) : List.Forall₂ p.Ties (xs.setIfInBounds i v).toList (ys.setIfInBounds i w).toList := by
  rw [Array.toList_setIfInBounds, Array.toList_setIfInBounds]
  generalize xs.toList = vs at ties
  generalize ys.toList = ws at ties
  induction ties generalizing i with
  | nil => exact .nil
  | cons first rest ih =>
    cases i with
    | zero => exact .cons tied rest
    | succ i => exact .cons first (ih i)

theorem mem_right {vs ws : List Value} (ties : List.Forall₂ p.Ties vs ws) (member : v ∈ vs) : ∃ w ∈ ws, p.Ties v w := by
  induction ties with
  | nil => cases member
  | cons first _ ih =>
    rcases List.mem_cons.1 member with rfl | later
    · exact ⟨_, List.mem_cons_self, first⟩
    · obtain ⟨w, within, tied⟩ := ih later
      exact ⟨w, List.mem_cons_of_mem _ within, tied⟩

theorem mem_left {vs ws : List Value} (ties : List.Forall₂ p.Ties vs ws) (member : w ∈ ws) : ∃ v ∈ vs, p.Ties v w := by
  induction ties with
  | nil => cases member
  | cons first _ ih =>
    rcases List.mem_cons.1 member with rfl | later
    · exact ⟨_, List.mem_cons_self, first⟩
    · obtain ⟨v, within, tied⟩ := ih later
      exact ⟨v, List.mem_cons_of_mem _ within, tied⟩

def retain (p : Pairing) (S : Nat → Nat → Prop) : Pairing where
  pairs := p.pairs
  live cell cell' := p.live cell cell' ∧ S cell cell'

theorem Fits.retain (fits : p.Fits heap heap') {S : Nat → Nat → Prop}
    (closed : ∀ outer outer' inner inner', p.live outer outer' → p.live inner inner' → heap.Holds outer inner →
      heap'.Holds outer' inner' → S inner inner' → S outer outer') : (p.retain S).Fits heap heap' := by
  refine ⟨fun live => fits.pair live.1, fits.known, ?_, fun live pair => fits.only live.1 pair,
    fun live pair => fits.only' live.1 pair, ?_, ?_, fits.allocated, fits.allocated'⟩
  · exact fun pair => ties_mono (fits.items pair) fun _ _ => id
  · rintro outer inner holds ⟨inner', live, retained⟩
    obtain ⟨outer', around⟩ := fits.around outer inner holds ⟨inner', live⟩
    obtain ⟨w, member, tied⟩ := mem_right (fits.items (fits.pair around)) (Array.mem_toList_iff.2 holds)
    refine ⟨outer', around, closed outer outer' inner inner' around live holds ?_ retained⟩
    cases tied with
    | flat flat => exact absurd rfl (flat inner)
    | array pair =>
      obtain rfl := fits.only live pair
      exact Array.mem_toList_iff.1 member
  · rintro outer' inner' holds ⟨inner, live, retained⟩
    obtain ⟨outer, around⟩ := fits.around' outer' inner' holds ⟨inner, live⟩
    obtain ⟨v, member, tied⟩ := mem_left (fits.items (fits.pair around)) (Array.mem_toList_iff.2 holds)
    refine ⟨outer, around, closed outer outer' inner inner' around live ?_ holds retained⟩
    cases tied with
    | flat flat => exact absurd rfl (flat inner')
    | array pair =>
      obtain rfl := fits.only' live pair
      exact Array.mem_toList_iff.1 member

def settled (p : Pairing) (later later' : Heap) : Pairing where
  pairs cell cell' := p.pairs cell cell' ∨
    (¬p.Left cell ∧ ¬p.Right cell' ∧ Alike later later' (.array cell) (.array cell'))
  live := p.live

theorem le_settled (p : Pairing) (later later' : Heap) : p ≤ p.settled later later' :=
  fun _ _ => Or.inl

def StillLeft (p : Pairing) (v : Value) : Prop :=
  ∀ cell, v = .array cell → ¬p.Left cell

def StillRight (p : Pairing) (w : Value) : Prop :=
  ∀ cell', w = .array cell' → ¬p.Right cell'

theorem ties_settled (alike : Alike later later' v w) (still : p.StillLeft v) (still' : p.StillRight w) :
    (p.settled later later').Ties v w := by
  obtain ⟨t, shown, shown'⟩ := alike
  cases shown with
  | leaf flat =>
    cases shown'
    exact .flat flat
  | node known items =>
    cases shown' with
    | node known' items' =>
      exact .array (Or.inr ⟨still _ rfl, still' _ rfl, _, .node known items, .node known' items'⟩)

theorem ties_settled_all {vs ws : List Value} (alike : List.Forall₂ (Alike later later') vs ws)
    (still : ∀ v ∈ vs, p.StillLeft v) (still' : ∀ w ∈ ws, p.StillRight w) :
    List.Forall₂ (p.settled later later').Ties vs ws := by
  induction alike with
  | nil => exact .nil
  | cons first _ ih =>
    rw [List.forall_mem_cons] at still still'
    exact .cons (ties_settled first still.1 still'.1) (ih still.2 still'.2)

/-- What goes together still does after new arrays have been made that the live
ones are not part of. -/
theorem Fits.settle (fits : p.Fits heap heap') (framed : heap.Framed later) (framed' : heap'.Framed later') :
    (p.settled later later').Fits later later' := by
  have around := framed.encloses fits.around fun _ => fits.known_left
  have around' := framed'.encloses fits.around' fun _ => fits.known_right
  constructor
  case pair => exact fun live => Or.inl (fits.pair live)
  case known =>
    rintro cell cell' (pair | ⟨-, -, t, shown, shown'⟩)
    · obtain ⟨known, known'⟩ := fits.known pair
      exact ⟨Nat.lt_of_lt_of_le known framed.extends_.size_le, Nat.lt_of_lt_of_le known' framed'.extends_.size_le⟩
    · cases shown with
      | leaf flat => exact absurd rfl (flat cell)
      | node known =>
        cases shown' with
        | node known' => exact ⟨known, known'⟩
  case items =>
    rintro cell cell' (pair | ⟨still, still', t, shown, shown'⟩)
    · obtain ⟨known, known'⟩ := fits.known pair
      rw [framed.extends_.kept cell known, framed'.extends_.kept cell' known']
      exact ties_mono (fits.items pair) (le_settled p later later')
    · cases shown with
      | leaf flat => exact absurd rfl (flat cell)
      | node _ items =>
        cases shown' with
        | node _ items' =>
          -- what an array holds that is not live is not live either
          refine ties_settled_all (items.alike items') ?_ ?_
          · rintro _ member inner rfl left
            exact still (around cell inner (Array.mem_toList_iff.1 member) left)
          · rintro _ member inner rfl right
            exact still' (around' cell' inner (Array.mem_toList_iff.1 member) right)
  case only =>
    rintro cell cell' other live (pair | ⟨still, -⟩)
    · exact fits.only live pair
    · exact absurd ⟨cell', live⟩ still
  case only' =>
    rintro cell cell' other live (pair | ⟨-, still, -⟩)
    · exact fits.only' live pair
    · exact absurd ⟨cell, live⟩ still
  case around => exact around
  case around' => exact around'
  case allocated => exact framed.forest.allocated
  case allocated' => exact framed'.forest.allocated

def apart : Pairing where
  pairs _ _ := False
  live _ _ := False

theorem fits_apart (forest : heap.Forest) (forest' : heap'.Forest) : apart.Fits heap heap' where
  pair := id
  known := False.elim
  items := False.elim
  only := False.elim
  only' := False.elim
  around _ _ _ left := left.elim fun _ => False.elim
  around' _ _ _ right := right.elim fun _ => False.elim
  allocated := forest.allocated
  allocated' := forest'.allocated

end Pairing

end ScriptKernel
