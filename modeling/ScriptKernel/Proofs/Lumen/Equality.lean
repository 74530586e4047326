import ScriptKernel.Lumen.Operations
import ScriptKernel.Proofs.Number.Order
import ScriptKernel.Proofs.Value.Trees

/-!
Equality of Lumen values. Two values are equal when the trees that they show
have the same shape and equal leaves, so the comparison always has an answer,
and it is an equivalence but for the undefined number, which equals nothing. As
a copy shows the tree of what is copied, a value equals its copy.
-/

namespace ScriptKernel.Lumen

def Simple : Value → Prop
  | .number _ | .bool _ | .string _ | .none | .range _ _ | .function .. | .native .. => True
  | _ => False

def Defined : Value → Prop
  | .number x => ¬x.isNaN
  | .range start stop => ¬start.isNaN ∧ ¬stop.isNaN
  | _ => True

def alike : Value → Value → Bool
  | .number x, .number y => x == y
  | .bool a, .bool b => a == b
  | .string s, .string t => s == t
  | .none, .none => true
  | .range a b, .range c d => a == c && b == d
  | .function a _ _, .function b _ _ => a == b
  | .native a _ _ _, .native b _ _ _ => a == b
  | _, _ => false

theorem beq_symm {x y : Float} (equal : x == y) : y == x := by
  obtain ⟨p, left, right⟩ := Binary64.beq_iff_place.1 equal
  exact Binary64.beq_iff_place.2 ⟨p, right, left⟩

theorem beq_trans {x y z : Float} (first : x == y) (second : y == z) : x == z := by
  obtain ⟨p, left, middle⟩ := Binary64.beq_iff_place.1 first
  obtain ⟨q, middle', right⟩ := Binary64.beq_iff_place.1 second
  obtain rfl : p = q := Option.some_inj.1 (middle.symm.trans middle')
  exact Binary64.beq_iff_place.2 ⟨p, left, right⟩

theorem beq_self {x : Float} (defined : ¬x.isNaN) : x == x := by
  rw [Binary64.isNaN_iff_place, ← ne_eq, Option.ne_none_iff_exists'] at defined
  obtain ⟨p, placed⟩ := defined
  exact Binary64.beq_iff_place.2 ⟨p, placed, placed⟩

theorem alike_symm {v w : Value} (equal : alike v w) : alike w v := by
  cases v <;> cases w <;> try contradiction
  case number.number x y => exact beq_symm equal
  case range.range a b c d =>
    rw [alike, Bool.and_eq_true] at equal ⊢
    exact ⟨beq_symm equal.1, beq_symm equal.2⟩
  case none.none => rfl
  all_goals
    rw [alike, beq_iff_eq] at equal ⊢
    exact equal.symm

theorem alike_trans {u v w : Value} (first : alike u v) (second : alike v w) : alike u w := by
  cases u <;> cases v <;> try contradiction
  all_goals cases w <;> try contradiction
  case number.number.number x y z => exact beq_trans first second
  case range.range.range a b c d e f =>
    rw [alike, Bool.and_eq_true] at first second ⊢
    exact ⟨beq_trans first.1 second.1, beq_trans first.2 second.2⟩
  case none.none.none => rfl
  all_goals
    rw [alike, beq_iff_eq] at first second ⊢
    exact first.trans second

theorem alike_self {v : Value} (simple : Simple v) (defined : Defined v) : alike v v := by
  cases v with
  | number x => exact beq_self defined
  | range start stop =>
    rw [alike, Bool.and_eq_true]
    exact ⟨beq_self defined.1, beq_self defined.2⟩
  | none => rfl
  | bool | string | function | native => exact beq_self_eq_true _
  | absent | array | int | flag | str | unit | foreign => exact simple.elim

mutual

def same : Unfolding → Unfolding → Bool
  | .leaf v, .leaf w => alike v w
  | .node ts, .node us => allSame ts us
  | _, _ => false

def allSame : List Unfolding → List Unfolding → Bool
  | [], [] => true
  | t :: ts, u :: us => same t u && allSame ts us
  | _, _ => false

end

mutual

theorem same_symm : ∀ {t u : Unfolding}, same t u → same u t
  | .leaf _, .leaf _, equal => by
    rw [same] at equal ⊢
    exact alike_symm equal
  | .node _, .node _, equal => by
    rw [same] at equal ⊢
    exact allSame_symm equal
  | .leaf _, .node _, equal => by simp [same] at equal
  | .node _, .leaf _, equal => by simp [same] at equal

theorem allSame_symm : ∀ {ts us : List Unfolding}, allSame ts us → allSame us ts
  | [], [], equal => equal
  | _ :: _, _ :: _, equal => by
    rw [allSame, Bool.and_eq_true] at equal ⊢
    exact ⟨same_symm equal.1, allSame_symm equal.2⟩
  | [], _ :: _, equal => by simp [allSame] at equal
  | _ :: _, [], equal => by simp [allSame] at equal

end

mutual

theorem same_trans : ∀ {t u w : Unfolding}, same t u → same u w → same t w
  | .leaf _, .leaf _, .leaf _, first, second => by
    rw [same] at first second ⊢
    exact alike_trans first second
  | .node _, .node _, .node _, first, second => by
    rw [same] at first second ⊢
    exact allSame_trans first second
  | .leaf _, .node _, _, first, _ => by simp [same] at first
  | .node _, .leaf _, _, first, _ => by simp [same] at first
  | .leaf _, .leaf _, .node _, _, second => by simp [same] at second
  | .node _, .node _, .leaf _, _, second => by simp [same] at second

theorem allSame_trans : ∀ {ts us ws : List Unfolding}, allSame ts us → allSame us ws → allSame ts ws
  | [], [], _, _, second => second
  | _ :: _, _ :: _, _ :: _, first, second => by
    rw [allSame, Bool.and_eq_true] at first second ⊢
    exact ⟨same_trans first.1 second.1, allSame_trans first.2 second.2⟩
  | [], _ :: _, _, first, _ => by simp [allSame] at first
  | _ :: _, [], _, first, _ => by simp [allSame] at first
  | _ :: _, _ :: _, [], _, second => by simp [allSame] at second

end

mutual

theorem same_self : ∀ {t : Unfolding}, t.Each (fun v => Simple v ∧ Defined v) → same t t
  | .leaf _, ⟨simple, defined⟩ => by
    rw [same]
    exact alike_self simple defined
  | .node _, each => by
    rw [same]
    exact allSame_self each

theorem allSame_self : ∀ {ts : List Unfolding}, Unfolding.All (fun v => Simple v ∧ Defined v) ts → allSame ts ts
  | [], _ => rfl
  | _ :: _, ⟨first, rest⟩ => by
    rw [allSame, Bool.and_eq_true]
    exact ⟨same_self first, allSame_self rest⟩

end

variable {heap : Heap} {a b c : Value}

def looseAt (heap : Heap) (depth : Nat) (a b : Value) : Except RuntimeFault Bool :=
  if a.kind ≠ b.kind then .ok false else heap.equalAt depth a b

theorem looseAt_leaf (heap : Heap) (depth : Nat) (simple : Simple a) (simple' : Simple b) :
    looseAt heap depth a b = .ok (alike a b) := by
  cases a <;> try contradiction
  all_goals
    cases b <;> try contradiction
    all_goals cases depth <;> rfl

theorem kind_ne_array (simple : Simple a) (cell : Nat) : a.kind ≠ (Value.array cell).kind := by
  cases a <;> first | contradiction | simp [Value.kind]

theorem allSame_of_length_ne {ts us : List Unfolding} (long : ts.length ≠ us.length) : allSame ts us = false := by
  induction ts generalizing us with
  | nil =>
    cases us with
    | nil => exact absurd rfl long
    | cons u us => rfl
  | cons t ts ih =>
    cases us with
    | nil => rfl
    | cons u us => rw [allSame, ih fun equal => long (congrArg Nat.succ equal), Bool.and_false]

mutual

theorem looseAt_shows : ∀ {t u : Unfolding} {depth : Nat} {a b : Value}, heap.Shows a t → heap.Shows b u →
    t.Each Simple → u.Each Simple → t.height ≤ depth → looseAt heap depth a b = .ok (same t u)
  | .leaf _, .leaf _, depth, _, _, .leaf _, .leaf _, simple, simple', _ => by
    rw [same]
    exact looseAt_leaf heap depth simple simple'
  | .leaf _, .node _, _, _, _, .leaf _, @Heap.Shows.node _ cell _ _ _, simple, _, _ => by
    rw [looseAt, if_pos (kind_ne_array simple cell)]
    simp [same]
  | .node _, .leaf _, _, _, _, @Heap.Shows.node _ cell _ _ _, .leaf _, _, simple', _ => by
    rw [looseAt, if_pos (kind_ne_array simple' cell).symm]
    simp [same]
  | .node ts, .node us, depth, _, _, @Heap.Shows.node _ cell _ _ items, @Heap.Shows.node _ cell' _ _ items', each,
      each', enough => by
    rw [Unfolding.height] at enough
    obtain ⟨depth, rfl⟩ : ∃ d, depth = d + 1 := ⟨depth - 1, by omega⟩
    have alikeKinds : ¬(Value.array cell).kind ≠ (Value.array cell').kind := not_not.2 rfl
    rw [looseAt, if_neg alikeKinds, Heap.equalAt_arrays, same]
    have lengths := items.length_eq
    have lengths' := items'.length_eq
    rw [Array.length_toList] at lengths lengths'
    by_cases long : (heap.items cell).size = (heap.items cell').size
    · rw [if_neg (not_not.2 long)]
      exact allEqual_shows items items' each each' (Nat.le_of_succ_le_succ enough) (by omega)
    · rw [if_pos long, allSame_of_length_ne (by omega)]

theorem allEqual_shows : ∀ {ts us : List Unfolding} {depth : Nat} {vs ws : List Value}, heap.ShowAll vs ts →
    heap.ShowAll ws us → Unfolding.All Simple ts → Unfolding.All Simple us → Unfolding.heights ts ≤ depth →
    ts.length = us.length → Heap.allEqual (looseAt heap depth) vs ws = .ok (allSame ts us)
  | [], [], _, _, _, .nil, .nil, _, _, _, _ => rfl
  | t :: ts, u :: us, depth, _, _, .cons first rest, .cons first' rest', each, each', enough, long => by
    rw [Unfolding.heights, Nat.max_le] at enough
    have here := looseAt_shows first first' each.1 each'.1 enough.1
    have later := allEqual_shows rest rest' each.2 each'.2 enough.2 (Nat.succ.inj long)
    rw [Heap.allEqual, here, allSame]
    cases same t u with
    | true => exact later
    | false => rfl

end

theorem looseEqual_shows {t u : Unfolding} (shown : heap.Shows a t) (shown' : heap.Shows b u) (simple : t.Each Simple)
    (simple' : u.Each Simple) : heap.looseEqual a b = .ok (same t u) :=
  looseAt_shows shown shown' simple simple' shown.height_le_walkDepth

theorem compare_shows {t u : Unfolding} (shown : heap.Shows a t) (shown' : heap.Shows b u) (simple : t.Each Simple)
    (simple' : u.Each Simple) :
    compare heap .eq a b = .ok (.bool (same t u)) ∧ compare heap .ne a b = .ok (.bool (!same t u)) := by
  have equal := looseEqual_shows shown shown' simple simple'
  constructor
  · rw [compare, equal]
    rfl
  · rw [compare, equal]
    rfl

/-- Equality of Lumen values always answers and is an equivalence, but that the
undefined number equals nothing; its opposite is the other comparison, and a
value without the undefined number equals its copy. -/
theorem equality_equivalence (heap : Heap) :
    (∀ a b, heap.MadeOf Simple a → heap.MadeOf Simple b →
      ∃ equal, compare heap .eq a b = .ok (.bool equal) ∧ compare heap .eq b a = .ok (.bool equal) ∧
        compare heap .ne a b = .ok (.bool (!equal))) ∧
    (∀ a b c, heap.MadeOf Simple a → heap.MadeOf Simple b → heap.MadeOf Simple c →
      compare heap .eq a b = .ok (.bool true) → compare heap .eq b c = .ok (.bool true) →
      compare heap .eq a c = .ok (.bool true)) ∧
    ∀ a, heap.MadeOf (fun v => Simple v ∧ Defined v) a →
      compare heap .eq a a = .ok (.bool true) ∧
        compare (heap.copy a).1 .eq a (heap.copy a).2 = .ok (.bool true) := by
  refine ⟨?_, ?_, ?_⟩
  · rintro a b ⟨t, shown, simple⟩ ⟨u, shown', simple'⟩
    have symm : same u t = same t u := Bool.eq_iff_iff.2 ⟨same_symm, same_symm⟩
    obtain ⟨equal, unequal⟩ := compare_shows shown shown' simple simple'
    refine ⟨same t u, equal, ?_, unequal⟩
    rw [← symm]
    exact (compare_shows shown' shown simple' simple).1
  · rintro a b c ⟨t, shown, simple⟩ ⟨u, shown', simple'⟩ ⟨w, shown'', simple''⟩ first second
    rw [(compare_shows shown shown' simple simple').1, Except.ok.injEq, Value.bool.injEq] at first
    rw [(compare_shows shown' shown'' simple' simple'').1, Except.ok.injEq, Value.bool.injEq] at second
    rw [(compare_shows shown shown'' simple simple'').1, same_trans first second]
  · rintro a ⟨t, shown, each⟩
    have simple : t.Each Simple := each.mono fun v both => both.1
    have still := shown.extend (Heap.copy_extends heap a)
    refine ⟨?_, ?_⟩
    · rw [(compare_shows shown shown simple simple).1, same_self each]
    · rw [(compare_shows still shown.copy simple simple).1, same_self each]

theorem equality_equivalence_nested :
    let heap : Heap := ⟨#[#[.range 1 3], #[.array 0, .string "a"], #[.range 1 3], #[.array 2, .string "a"]]⟩
    heap.MadeOf (fun v => Simple v ∧ Defined v) (.array 1) ∧
      compare heap .eq (.array 1) (.array 3) = .ok (.bool true) ∧
      compare heap .ne (.array 1) (.array 3) = .ok (.bool false) ∧
      compare heap .eq (.array 1) (.array 1) = .ok (.bool true) ∧
      compare (heap.copy (.array 1)).1 .eq (.array 1) (heap.copy (.array 1)).2 = .ok (.bool true) := by
  intro heap
  have range : Simple (.range 1 3) ∧ Defined (.range 1 3) := by
    refine ⟨trivial, ?_⟩
    rw [Defined]
    decide +kernel
  have string : Simple (.string "a") ∧ Defined (.string "a") := ⟨trivial, trivial⟩
  have made (outer inner : Nat) (known : inner < heap.cells.size ∧ outer < heap.cells.size)
      (items : heap.items inner = #[.range 1 3] ∧ heap.items outer = #[.array inner, .string "a"]) :
      heap.MadeOf (fun v => Simple v ∧ Defined v) (.array outer) := by
    refine ⟨.node [.node [.leaf (.range 1 3)], .leaf (.string "a")], .node known.2 ?_,
      ⟨⟨range, trivial⟩, string, trivial⟩⟩
    rw [items.2]
    refine .cons (.node known.1 ?_) (.cons (.leaf (by simp)) .nil)
    rw [items.1]
    exact .cons (.leaf (by simp)) .nil
  have first := made 1 0 (by decide) ⟨rfl, rfl⟩
  have second := made 3 2 (by decide) ⟨rfl, rfl⟩
  have simple {v : Value} (made : heap.MadeOf (fun v => Simple v ∧ Defined v) v) : heap.MadeOf Simple v :=
    made.mono fun v both => both.1
  obtain ⟨answers, trans, self⟩ := equality_equivalence heap
  obtain ⟨equal, here, back, other⟩ := answers _ _ (simple first) (simple second)
  obtain rfl : equal = true := by
    have evaluated : compare heap .eq (.array 1) (.array 3) = .ok (.bool true) := by decide +kernel
    simpa using here.symm.trans evaluated
  exact ⟨first, here, other, trans _ _ _ (simple first) (simple second) (simple first) here back, (self _ first).2⟩

end ScriptKernel.Lumen
