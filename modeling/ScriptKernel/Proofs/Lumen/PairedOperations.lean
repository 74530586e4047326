import ScriptKernel.Proofs.Machine.ArgumentKeys
import ScriptKernel.Proofs.Machine.HeldValues
import ScriptKernel.Proofs.Value.Pairing

/-!
Operations on values that go together. An operator does not see which cell an
array is in, so on both sides it fails alike or gives values that go together.
-/

namespace ScriptKernel

inductive Both {α β : Type} (R : α → β → Prop) : Except RuntimeFault α → Except RuntimeFault β → Prop
  | ok {a : α} {b : β} (related : R a b) : Both R (.ok a) (.ok b)
  | error (f : RuntimeFault) : Both R (.error f) (.error f)

namespace Both

variable {α β γ δ : Type} {R : α → β → Prop} {S : γ → δ → Prop}

theorem same {result : Except RuntimeFault α} {Q : α → α → Prop} (refl : ∀ a, result = .ok a → Q a a) :
    Both Q result result := by
  cases result with
  | ok a => exact .ok (refl a rfl)
  | error f => exact .error f

theorem bind {first : Except RuntimeFault α} {second : Except RuntimeFault β} (both : Both R first second)
    {next : α → Except RuntimeFault γ} {next' : β → Except RuntimeFault δ}
    (rest : ∀ a b, R a b → Both S (next a) (next' b)) : Both S (first >>= next) (second >>= next') := by
  cases both with
  | ok related => exact rest _ _ related
  | error f => exact .error f

end Both

namespace Pairing

open Heap (Alike)

variable {p : Pairing} {heap heap' : Heap} {v w x y : Value}

theorem Ties.refl_of_plain (plain : v.Plain) : p.Ties v v := by
  refine .flat fun cell same => ?_
  subst same
  exact plain

theorem both_of_plain {result result' : Except RuntimeFault Value} (same : result' = result)
    (plain : ∀ v, result = .ok v → v.Plain) : Both p.Ties result result' := by
  subst same
  exact .same fun v given => .refl_of_plain (plain v given)

theorem Ties.kind_eq (ties : p.Ties v w) : w.kind = v.kind := by
  cases ties <;> rfl

theorem Ties.asNumber_eq (ties : p.Ties v w) : w.asNumber = v.asNumber := by
  cases ties <;> rfl

theorem Ties.asString_eq (ties : p.Ties v w) : w.asString = v.asString := by
  cases ties <;> rfl

theorem Ties.asBool_eq (ties : p.Ties v w) : w.asBool = v.asBool := by
  cases ties <;> rfl

theorem Ties.asArray (ties : p.Ties v w) :
    Both (fun cell cell' => p.Ties (.array cell) (.array cell')) v.asArray w.asArray := by
  cases ties with
  | array pair => exact .ok (.array pair)
  | flat flat =>
    cases v with
    | array cell => exact absurd rfl (flat cell)
    | _ => exact .error _

theorem Ties.pair {cell cell' : Nat} (ties : p.Ties (.array cell) (.array cell')) : p.pairs cell cell' := by
  cases ties with
  | array pair => exact pair
  | flat flat => exact absurd rfl (flat cell)

theorem Ties.truth_eq (ties : p.Ties v w) (dialect : Dialect) : dialect.truth w = dialect.truth v := by
  cases ties <;> rfl

/-- The pairing and what makes its values show trees. -/
structure Joins (p : Pairing) (heap heap' : Heap) : Prop where
  fits : p.Fits heap heap'
  forest : heap.Forest
  forest' : heap'.Forest

namespace Joins

variable (joins : p.Joins heap heap')
include joins

theorem alike (ties : p.Ties v w) : Alike heap heap' v w :=
  joins.fits.alike joins.forest ties

theorem display_eq (ties : p.Ties v w) : heap'.display w = heap.display v := by
  obtain ⟨t, shown, shown'⟩ := joins.alike ties
  exact Heap.Shows.displayAt_eq t shown shown' shown.height_le_walkDepth shown'.height_le_walkDepth

theorem debug_eq (ties : p.Ties v w) : heap'.debug w = heap.debug v := by
  obtain ⟨t, shown, shown'⟩ := joins.alike ties
  apply String.toList_inj.1
  rw [Heap.debug, Heap.debug, shown.toList_debugAt shown.height_le_walkDepth,
    shown'.toList_debugAt shown'.height_le_walkDepth]

theorem map_debug_eq {vs ws : List Value} (ties : List.Forall₂ p.Ties vs ws) :
    ws.map heap'.debug = vs.map heap.debug := by
  induction ties with
  | nil => rfl
  | cons first _ ih => rw [List.map_cons, List.map_cons, joins.debug_eq first, ih]

theorem looseEqual_eq (left : p.Ties v w) (right : p.Ties x y) : heap'.looseEqual w y = heap.looseEqual v x := by
  obtain ⟨t, shown, shown'⟩ := joins.alike left
  obtain ⟨u, other, other'⟩ := joins.alike right
  rw [Heap.looseEqual, Heap.looseEqual, left.kind_eq, right.kind_eq, Heap.strictEqual, Heap.strictEqual,
    Heap.Shows.equalAt_eq t shown shown' other other' shown.height_le_walkDepth shown'.height_le_walkDepth]

end Joins

theorem arith_both (op : ArithOp) (left : p.Ties v w) (right : p.Ties x y) :
    Both p.Ties (Lumen.arith op v x) (Lumen.arith op w y) := by
  refine both_of_plain ?_ fun _ => Lumen.arith_plain
  have number : (do let a ← w.asNumber; let b ← y.asNumber; Lumen.numberArith op a b) =
      (do let a ← v.asNumber; let b ← x.asNumber; Lumen.numberArith op a b) := by
    rw [left.asNumber_eq, right.asNumber_eq]
  cases left with
  | array => cases op <;> exact number
  | flat =>
    unfold Lumen.arith
    rw [right.asNumber_eq, right.asString_eq]

theorem negate_both (ties : p.Ties v w) : Both p.Ties (Lumen.negate v) (Lumen.negate w) := by
  refine both_of_plain ?_ fun _ => Lumen.negate_plain
  rw [Lumen.negate, Lumen.negate, ties.asNumber_eq]

theorem not_both (ties : p.Ties v w) : Both p.Ties (Lumen.not v) (Lumen.not w) := by
  refine both_of_plain ?_ fun _ => Lumen.not_plain
  rw [Lumen.not, Lumen.not, ties.asBool_eq]

theorem range_both (left : p.Ties v w) (right : p.Ties x y) : Both p.Ties (Lumen.range v x) (Lumen.range w y) := by
  refine both_of_plain ?_ fun _ => Lumen.range_plain
  rw [Lumen.range, Lumen.range, left.asNumber_eq, right.asNumber_eq]

theorem compare_both (joins : p.Joins heap heap') (op : CompareOp) (left : p.Ties v w) (right : p.Ties x y) :
    Both p.Ties (Lumen.compare heap op v x) (Lumen.compare heap' op w y) := by
  refine both_of_plain ?_ fun _ => Lumen.compare_plain
  have equal := joins.looseEqual_eq left right
  cases left with
  | array => cases op <;> simp only [Lumen.compare, equal] <;> rfl
  | flat => simp only [Lumen.compare, equal, right.asNumber_eq, right.asString_eq]

theorem size_eq (joins : p.Joins heap heap') {cell cell' : Nat} (pair : p.pairs cell cell') :
    (heap'.items cell').size = (heap.items cell).size :=
  (joins.fits.items pair).length_eq.symm

theorem position_eq (ties : p.Ties v w) (length : Int) : Lumen.position w length = Lumen.position v length := by
  rw [Lumen.position, Lumen.position, ties.asNumber_eq]

theorem getElem_ties {vs ws : List Value} (ties : List.Forall₂ p.Ties vs ws) (i : Nat) :
    p.Ties (vs[i]?.getD .absent) (ws[i]?.getD .absent) := by
  induction ties generalizing i with
  | nil => exact .flat nofun
  | cons first _ ih =>
    cases i with
    | zero => exact first
    | succ i => exact ih i

theorem index_both (joins : p.Joins heap heap') (left : p.Ties v w) (right : p.Ties x y) :
    Both p.Ties (Lumen.index heap v x) (Lumen.index heap' w y) := by
  cases left with
  | @array cell cell' pair =>
    simp only [Lumen.index, size_eq joins pair, position_eq right]
    refine Both.bind (R := Eq) (.same fun _ _ => rfl) ?_
    rintro i _ rfl
    have ties := getElem_ties (joins.fits.items pair) i
    rw [Array.getElem?_toList, Array.getElem?_toList] at ties
    exact .ok ties
  | flat flat =>
    cases v with
    | string s =>
      simp only [Lumen.index, position_eq right]
      refine Both.bind (R := Eq) (.same fun _ _ => rfl) ?_
      rintro i _ rfl
      exact .ok (.flat nofun)
    | range start stop =>
      simp only [Lumen.index, position_eq right]
      refine Both.bind (R := Eq) (.same fun _ _ => rfl) ?_
      rintro i _ rfl
      exact .ok (.flat nofun)
    | array cell => exact absurd rfl (flat cell)
    | _ => exact .error _

theorem length_both (joins : p.Joins heap heap') (ties : p.Ties v w) :
    Both p.Ties (Lumen.length heap v) (Lumen.length heap' w) := by
  refine both_of_plain ?_ fun _ => Lumen.length_plain
  cases ties with
  | array pair => simp only [Lumen.length, size_eq joins pair]
  | flat flat =>
    cases v with
    | array cell => exact absurd rfl (flat cell)
    | _ => rfl

theorem course_both (joins : p.Joins heap heap') (ties : p.Ties v w) :
    Both (Lumen.Courses p.Ties) (Lumen.course heap v) (Lumen.course heap' w) := by
  cases ties with
  | array pair => exact .ok (.items (joins.fits.items pair))
  | flat flat =>
    cases v with
    | range start stop => exact .ok (.steps start stop)
    | string s =>
      refine .ok (.items (List.forall₂_same.2 fun v member => .flat ?_))
      obtain ⟨c, -, rfl⟩ := List.mem_map.1 member
      exact nofun
    | array cell => exact absurd rfl (flat cell)
    | _ => exact .error _

theorem headD_ties {vs ws : List Value} (ties : List.Forall₂ p.Ties vs ws) {other : Value}
    (flat : ∀ cell, other ≠ .array cell) : p.Ties (vs.headD other) (ws.headD other) := by
  cases ties with
  | nil => exact .flat flat
  | cons first _ => exact first

theorem Ties.absent_iff (ties : p.Ties v w) : w = .absent ↔ v = .absent := by
  cases ties with
  | flat => rfl
  | array => exact ⟨nofun, nofun⟩

theorem perform_both (joins : p.Joins heap heap') (clock : Clock) (capability : Capability) {vs ws : List Value}
    (ties : List.Forall₂ p.Ties vs ws) (console : Console) :
    (capability.perform clock heap' ws console).1 = (capability.perform clock heap vs console).1 ∧
      Both p.Ties (capability.perform clock heap vs console).2 (capability.perform clock heap' ws console).2 := by
  have text (dialect : Dialect) (s : String) : p.Ties (dialect.text s) (dialect.text s) :=
    .refl_of_plain (dialect.text_plain s)
  cases capability with
  | recorded label fails dialect =>
    simp only [Capability.perform, joins.map_debug_eq ties]
    cases fails with
    | true => exact ⟨rfl, .error _⟩
    | false => exact ⟨rfl, .ok (headD_ties ties fun cell same => by cases dialect <;> cases same)⟩
  | builtin action dialect broken =>
    simp only [Capability.perform, ← ties.length_eq]
    split
    · exact ⟨rfl, .error _⟩
    · have tied : p.Ties (vs.headD .absent) (ws.headD .absent) := headD_ties ties (by rintro cell ⟨⟩)
      generalize vs.headD .absent = v at tied
      generalize ws.headD .absent = w at tied
      cases action with
      | print | write =>
        simp only [Capability.act, joins.display_eq tied]
        cases broken with
        | some reason => exact ⟨rfl, .error _⟩
        | none => exact ⟨rfl, .ok tied⟩
      | debugInfo =>
        simp only [Capability.act, joins.debug_eq tied]
        exact ⟨trivial, .ok tied⟩
      | debugDump =>
        simp only [Capability.act, joins.debug_eq tied, tied.absent_iff]
        exact ⟨trivial, .ok tied⟩
      | valueKind =>
        simp only [Capability.act, tied.kind_eq]
        exact ⟨trivial, .ok (text _ _)⟩
      | now => exact ⟨rfl, .ok (text _ _)⟩
      | formatTime =>
        simp only [Capability.act, joins.display_eq tied]
        exact ⟨trivial, .ok (text _ _)⟩
      | unixTime => exact ⟨rfl, .ok (.refl_of_plain (dialect.whole_plain _))⟩

end Pairing

/-- The host does not see which cells arrays are in, and leaves the arrays as they
are. -/
structure Host.Blind (host : Host) : Prop where
  spares : host.Spares
  both : ∀ {p : Pairing} {heap heap' : Heap} {vs ws : List Value}, p.Joins heap heap' → List.Forall₂ p.Ties vs ws →
    ∀ capability console, (host capability heap' ws console).1.2 = (host capability heap vs console).1.2 ∧
      Both p.Ties (host capability heap vs console).2 (host capability heap' ws console).2

theorem Host.usual_blind (clock : Clock) : (usual clock).Blind where
  spares _ _ _ _ := rfl
  both joins ties capability console := Pairing.perform_both joins clock capability ties console

end ScriptKernel
