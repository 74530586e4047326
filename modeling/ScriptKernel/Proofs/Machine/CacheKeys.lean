import ScriptKernel.Machine.Memo
import ScriptKernel.Proofs.Text.Quoted

/-!
What a key of the cache tells about a scalar among the arguments. The debug form
says which scalar it is and where the form ends.
-/

namespace ScriptKernel

inductive Value.Scalar : Value → Prop
  | int (n : Int64) : Scalar (.int n)
  | flag (b : Bool) : Scalar (.flag b)
  | str (s : String) : Scalar (.str s)
  | unit : Scalar .unit

instance : DecidablePred Value.Scalar
  | .int n => isTrue (.int n)
  | .flag b => isTrue (.flag b)
  | .str s => isTrue (.str s)
  | .unit => isTrue .unit
  | .absent | .number _ | .bool _ | .string _ | .none | .range _ _ | .array _ | .function _ _ _
  | .native _ _ _ _ | .foreign _ => isFalse nofun

namespace Heap

variable (heap : Heap)

theorem debug_int (n : Int64) :
    (heap.debug (.int n)).toList = "Int(".toList ++ ((Text.decimal n.toInt).toList ++ [')']) := by
  simp [debug, walkDepth, debugAt]

theorem debug_flag (b : Bool) :
    (heap.debug (.flag b)).toList = "Bool(".toList ++ ((Value.boolText b).toList ++ [')']) := by
  simp [debug, walkDepth, debugAt]

theorem debug_str (s : String) :
    (heap.debug (.str s)).toList = "Str(".toList ++ ((Text.quote s).toList ++ [')']) := by
  simp [debug, walkDepth, debugAt]

theorem debug_unit : (heap.debug .unit).toList = "Unit".toList := by
  simp [debug, walkDepth, debugAt]

theorem append_mark_inj {mark : Char} {left right behind other : List Char} (closed : mark ∉ left)
    (closes : mark ∉ right) (same : left ++ mark :: behind = right ++ mark :: other) :
    left = right ∧ behind = other := by
  induction left generalizing right with
  | nil =>
    cases right with
    | nil => exact ⟨rfl, (List.cons.inj same).2⟩
    | cons d right =>
      obtain ⟨rfl, -⟩ := List.cons.inj same
      exact absurd List.mem_cons_self closes
  | cons c left ih =>
    cases right with
    | nil =>
      obtain ⟨rfl, -⟩ := List.cons.inj same
      exact absurd List.mem_cons_self closed
    | cons d right =>
      obtain ⟨rfl, rests⟩ := List.cons.inj same
      obtain ⟨rfl, rfl⟩ := ih (fun h => closed (List.mem_cons_of_mem c h))
        (fun h => closes (List.mem_cons_of_mem c h)) rests
      exact ⟨rfl, rfl⟩

theorem close_notMem_decimal (n : Int) : ')' ∉ (Text.decimal n).toList := by
  intro member
  rcases Text.mem_decimal member with minus | digit
  · cases minus
  · cases digit

variable {heap}

theorem debug_append_inj {v w : Value} (scalar : v.Scalar) (other : w.Scalar) {behind rest : List Char}
    (same : (heap.debug v).toList ++ behind = (heap.debug w).toList ++ rest) :
    v = w ∧ behind = rest := by
  -- The first letter tells the kind.
  cases scalar with
  | int m =>
    cases other with
    | int n =>
      simp only [debug_int, List.append_assoc, List.cons_append, List.nil_append,
        List.append_right_inj] at same
      obtain ⟨texts, rfl⟩ :=
        append_mark_inj (close_notMem_decimal m.toInt) (close_notMem_decimal n.toInt) same
      have values := Text.decimal_injective (String.toList_inj.1 texts)
      exact ⟨by rw [Int64.toInt_inj.1 values], rfl⟩
    | flag | str | unit => simp [debug_int, debug_flag, debug_str, debug_unit] at same
  | flag a =>
    cases other with
    | flag b => cases a <;> cases b <;> simp [debug_flag, Value.boolText] at same ⊢ <;> exact same
    | int | str | unit => simp [debug_int, debug_flag, debug_str, debug_unit] at same
  | str s =>
    cases other with
    | str t =>
      simp only [debug_str, List.append_assoc, List.cons_append, List.nil_append,
        List.append_right_inj] at same
      obtain ⟨rfl, rests⟩ := Text.quote_append_inj same
      exact ⟨rfl, (List.cons.inj rests).2⟩
    | int | flag | unit => simp [debug_int, debug_flag, debug_str, debug_unit] at same
  | unit =>
    cases other with
    | unit => exact ⟨rfl, List.append_cancel_left same⟩
    | int | flag | str => simp [debug_int, debug_flag, debug_str, debug_unit] at same

end Heap

end ScriptKernel
