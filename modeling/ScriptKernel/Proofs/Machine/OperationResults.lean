import ScriptKernel.Lumen.Operations
import ScriptKernel.MiniRust.Operations
import ScriptKernel.Program.Basic
import ScriptKernel.Proofs.Machine.CacheKeys

/-!
The results of single operations. An operator gives something that refers to
nothing, or an element of an array that is there.
-/

namespace ScriptKernel

namespace Value

/-- A value that refers to nothing, such as the operators give. -/
def Plain : Value → Prop
  | absent | array _ | native .. => False
  | _ => True

theorem Scalar.plain {v : Value} (scalar : v.Scalar) : v.Plain := by
  cases scalar <;> trivial

end Value

theorem bind_eq_ok {α β : Type} {x : Except RuntimeFault α} {f : α → Except RuntimeFault β} {b : β}
    (result : x >>= f = .ok b) : ∃ a, x = .ok a ∧ f a = .ok b := by
  cases x with
  | error fault => cases result
  | ok a => exact ⟨a, rfl, result⟩

namespace MiniRust

theorem intArith_scalar {op : ArithOp} {x y : Int64} {v : Value} (result : intArith op x y = .ok v) :
    v.Scalar := by
  unfold intArith at result
  dsimp only at result
  split at result
  case h_6 => cases result
  all_goals split_ifs at result <;> cases result <;> exact .int _

theorem arith_scalar {op : ArithOp} {left right v : Value} (result : arith op left right = .ok v) :
    v.Scalar := by
  unfold arith at result
  split at result
  · obtain ⟨t, _, appended⟩ := bind_eq_ok result
    cases appended
    exact .str _
  · obtain ⟨x, _, rest⟩ := bind_eq_ok result
    obtain ⟨y, _, computed⟩ := bind_eq_ok rest
    exact intArith_scalar computed

theorem negate_scalar {x v : Value} (result : negate x = .ok v) : v.Scalar := by
  obtain ⟨n, _, rest⟩ := bind_eq_ok result
  split at rest
  · cases rest
  · cases rest
    exact .int _

theorem not_scalar {x v : Value} (result : not x = .ok v) : v.Scalar := by
  obtain ⟨b, _, rest⟩ := bind_eq_ok result
  cases rest
  exact .flag _

theorem compareInts_scalar {op : CompareOp} {x y : Int64} {v : Value}
    (result : compareInts op x y = .ok v) : v.Scalar := by
  unfold compareInts at result
  split at result <;> cases result <;> exact .flag _

theorem compare_scalar {heap : Heap} {op : CompareOp} {left right v : Value}
    (result : compare heap op left right = .ok v) : v.Scalar := by
  unfold compare at result
  split at result
  · obtain ⟨b, _, rest⟩ := bind_eq_ok result
    cases rest
    exact .flag _
  · obtain ⟨b, _, rest⟩ := bind_eq_ok result
    cases rest
    exact .flag _
  · obtain ⟨x, _, rest⟩ := bind_eq_ok result
    obtain ⟨y, _, computed⟩ := bind_eq_ok rest
    exact compareInts_scalar computed

theorem format_scalar {template : String} {texts : List String} {v : Value}
    (result : format template texts = .ok v) : v.Scalar := by
  obtain ⟨filled, _, rest⟩ := bind_eq_ok result
  cases rest
  exact .str _

end MiniRust

namespace Lumen

theorem numberArith_plain {op : ArithOp} {x y : Float} {v : Value} (result : numberArith op x y = .ok v) :
    v.Plain := by
  unfold numberArith at result
  split at result
  case h_4 | h_5 | h_6 =>
    split at result <;> cases result
    trivial
  all_goals
    cases result
    try trivial

theorem arith_plain {op : ArithOp} {left right v : Value} (result : arith op left right = .ok v) :
    v.Plain := by
  unfold arith at result
  split at result
  · obtain ⟨t, _, appended⟩ := bind_eq_ok result
    cases appended
    trivial
  · obtain ⟨x, _, rest⟩ := bind_eq_ok result
    obtain ⟨y, _, computed⟩ := bind_eq_ok rest
    exact numberArith_plain computed

theorem negate_plain {x v : Value} (result : negate x = .ok v) : v.Plain := by
  obtain ⟨n, _, rest⟩ := bind_eq_ok result
  cases rest
  trivial

theorem not_plain {x v : Value} (result : not x = .ok v) : v.Plain := by
  obtain ⟨b, _, rest⟩ := bind_eq_ok result
  cases rest
  trivial

theorem decideOrder_plain {op : CompareOp} {o : Ordering} {v : Value} (result : decideOrder op o = .ok v) :
    v.Plain := by
  unfold decideOrder at result
  split at result <;> cases result <;> trivial

theorem compare_plain {heap : Heap} {op : CompareOp} {left right v : Value}
    (result : compare heap op left right = .ok v) : v.Plain := by
  unfold compare at result
  split at result
  · obtain ⟨b, _, rest⟩ := bind_eq_ok result
    cases rest
    trivial
  · obtain ⟨b, _, rest⟩ := bind_eq_ok result
    cases rest
    trivial
  · obtain ⟨y, _, decided⟩ := bind_eq_ok result
    exact decideOrder_plain decided
  · obtain ⟨y, _, decided⟩ := bind_eq_ok result
    exact decideOrder_plain decided
  · cases result

theorem range_plain {start stop v : Value} (result : range start stop = .ok v) : v.Plain := by
  obtain ⟨x, _, rest⟩ := bind_eq_ok result
  obtain ⟨y, _, made⟩ := bind_eq_ok rest
  cases made
  trivial

theorem length_plain {heap : Heap} {v w : Value} (result : length heap v = .ok w) : w.Plain := by
  unfold length at result
  dsimp only at result
  split at result <;> cases result <;> trivial

theorem position_lt {v : Value} {length : Int} {i : Nat} (found : position v length = .ok i) : i < length := by
  obtain ⟨x, _, rest⟩ := bind_eq_ok found
  split at rest
  · cases rest
  next n _ =>
    split at rest
    · cases rest
    · cases rest
      omega

theorem index_from {heap : Heap} {v place w : Value} (result : index heap v place = .ok w) :
    w.Plain ∨ ∃ cell, w ∈ heap.items cell := by
  unfold index at result
  split at result
  next cell =>
    obtain ⟨i, found, rest⟩ := bind_eq_ok result
    have inside : i < (heap.items cell).size := by
      have := position_lt found
      omega
    cases rest
    rw [Array.getElem?_eq_getElem inside, Option.getD_some]
    exact Or.inr ⟨cell, Array.getElem_mem inside⟩
  next s =>
    obtain ⟨i, _, rest⟩ := bind_eq_ok result
    cases rest
    exact Or.inl trivial
  next start stop =>
    obtain ⟨i, _, rest⟩ := bind_eq_ok result
    cases rest
    exact Or.inl trivial
  · cases result

theorem course_from {heap : Heap} {v : Value} {vs : List Value} (result : course heap v = .ok (.items vs)) :
    ∀ w ∈ vs, w.Plain ∨ ∃ cell, w ∈ heap.items cell := by
  unfold course at result
  split at result
  · cases result
  next cell =>
    cases result
    exact fun w member => Or.inr ⟨cell, Array.mem_toList_iff.1 member⟩
  · cases result
    intro w member
    obtain ⟨c, -, rfl⟩ := List.mem_map.1 member
    exact Or.inl trivial
  · cases result

end Lumen

namespace Expr

def operation : Expr → Option (Heap → Value → Value → Except RuntimeFault Value)
  | .binary op _ _ => some fun _ => Lumen.arith op
  | .compare op _ _ => some fun heap => Lumen.compare heap op
  | .range _ _ => some fun _ => Lumen.range
  | .index _ _ => some Lumen.index
  | .intBinary op _ _ => some fun _ => MiniRust.arith op
  | .intCompare op _ _ => some fun heap => MiniRust.compare heap op
  | _ => none

def conversion : Expr → Option (Value → Except RuntimeFault Value)
  | .negate _ => some Lumen.negate
  | .not _ => some Lumen.not
  | .intNegate _ => some MiniRust.negate
  | .flagNot _ => some MiniRust.not
  | _ => none

variable {x : Expr} {v : Value}

theorem operation_from {f : Heap → Value → Value → Except RuntimeFault Value} (here : x.operation = some f)
    {heap : Heap} {a b : Value} (result : f heap a b = .ok v) : v.Plain ∨ ∃ cell, v ∈ heap.items cell := by
  cases x with
  | binary op left right =>
    cases here
    exact Or.inl (Lumen.arith_plain result)
  | compare op left right =>
    cases here
    exact Or.inl (Lumen.compare_plain result)
  | range start stop =>
    cases here
    exact Or.inl (Lumen.range_plain result)
  | index y position =>
    cases here
    exact Lumen.index_from result
  | intBinary op left right =>
    cases here
    exact Or.inl (MiniRust.arith_scalar result).plain
  | intCompare op left right =>
    cases here
    exact Or.inl (MiniRust.compare_scalar result).plain
  | _ => cases here

theorem conversion_plain {f : Value → Except RuntimeFault Value} (here : x.conversion = some f) {a : Value}
    (result : f a = .ok v) : v.Plain := by
  cases x with
  | negate y =>
    cases here
    exact Lumen.negate_plain result
  | not y =>
    cases here
    exact Lumen.not_plain result
  | intNegate y =>
    cases here
    exact (MiniRust.negate_scalar result).plain
  | flagNot y =>
    cases here
    exact (MiniRust.not_scalar result).plain
  | _ => cases here

end Expr

end ScriptKernel
