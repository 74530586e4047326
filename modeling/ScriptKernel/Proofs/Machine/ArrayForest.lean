import ScriptKernel.Proofs.Lumen.RoundTrip
import ScriptKernel.Proofs.Machine.HeldValues

/-!
The arrays of a Lumen program. A source has no arrays in it but those that its
literals make, so in every state that a run of it goes through the arrays form a
forest, and a change of an array shows in that array and those around it alone.
-/

namespace ScriptKernel

namespace Lumen

theorem FormedExpr.literals {x : Expr} (formed : FormedExpr x) : x.Every (Expr.LiteralOf Value.Plain) := by
  induction formed with
  | @between op l r known ordinary left right ihLeft ihRight =>
    cases op with
    | pipe => exact absurd rfl ordinary
    | _ => exact .pair trivial rfl ihLeft ihRight
  | pipe left right ihLeft ihRight => exact .intro trivial (List.forall_mem_cons.2 ⟨ihLeft, ihRight.parts⟩)
  | not inner ih => exact .intro trivial (List.forall_mem_singleton.2 ih)
  | negate inner ih => exact .intro trivial (List.forall_mem_singleton.2 ih)
  | call callee each ihCallee ih => exact .intro trivial (List.forall_mem_cons.2 ⟨ihCallee, ih⟩)
  | hostCall parsed each ih => exact .intro trivial ih
  | array each ih => exact .intro trivial ih
  | index left inner ihLeft ihInner => exact .pair trivial rfl ihLeft ihInner
  | _ => exact .intro trivial (List.forall_mem_nil _)

theorem FormedStmt.literals {s : Stmt} (formed : FormedStmt s) : s.Uses (Expr.LiteralOf Value.Plain) := by
  have one {x : Expr} (formed : FormedExpr x) : ∀ y ∈ [x], y.Every (Expr.LiteralOf Value.Plain) :=
    List.forall_mem_singleton.2 formed.literals
  induction formed with
  | expr formed | define _ formed | assign _ formed | returnSome formed =>
    exact .intro trivial (one formed) (List.forall_mem_nil _)
  | cond formed then_ else_ ihThen ihElse =>
    exact .intro trivial (one formed) (List.forall_mem_append.2 ⟨ihThen, ihElse⟩)
  | whileLoop formed each negated ih => exact .intro trivial (one formed) ih
  | forEach valid formed each ih => exact .intro trivial (one formed) ih
  | declare valid names distinct each ih => exact .intro trivial (List.forall_mem_nil _) ih
  | setItem valid inner formed =>
    exact .intro trivial (List.forall_mem_cons.2 ⟨inner.literals, one formed⟩) (List.forall_mem_nil _)
  | push first second =>
    exact .intro trivial (List.forall_mem_cons.2 ⟨first.literals, one second⟩) (List.forall_mem_nil _)
  | _ => exact .intro trivial (List.forall_mem_nil _) (List.forall_mem_nil _)

end Lumen

/-- Whatever is stored into an array, and by whichever of the two steps that
store, the rest of the heap looks as before. -/
theorem State.Consistent.store_apart {st : State} (consistent : st.Consistent) (setting : Setting) {cell : Nat}
    (known : cell < st.heap.cells.size) {v w : Value} (stored : v.Belongs st.heap.cells.size)
    (belongs : w.Belongs st.heap.cells.size) (outside : st.heap.Outside cell w)
    (f : Value → Array Value → Array Value) (path : List Nat) :
    ((Run.storeCopy (fun heap v => heap.change cell (f v)) v).after setting st).heap.at? w path =
      st.heap.at? w path := by
  obtain ⟨scopes, heap, memo, calls, console⟩ := st
  have present : v ≠ .absent := by
    rintro rfl
    exact stored.proper
  have copied := Heap.copy_copied consistent.forest stored.known
  have inside : cell < (heap.copy v).1.cells.size := Nat.lt_of_lt_of_le known copied.extends_.size_le
  rw [Run.storeCopy, if_neg present]
  exact Heap.at?_change consistent.forest copied.extends_ inside _ belongs.known outside path

theorem Session.machine_consistent {s : Session} (lumen : s.language = Language.lumen) :
    s.machine.state.Consistent where
  forest := Heap.forest_empty
  scopes := by
    show Scopes.Each _ { globals := s.language.globals }
    rw [lumen]
    intro scope member entry inside
    obtain rfl := List.mem_singleton.1 member
    obtain rfl := List.mem_singleton.1 inside
    exact ⟨rfl, nofun⟩
  elements := fun cell v member => by simp [Session.machine, Heap.items] at member
  kept := by
    rintro _ label key v ⟨⟩ held
    cases memoize : s.options.memoize <;> simp [memoize, Memo.enable, Memo.find?] at held

theorem Session.load_literals {s : Session} (lumen : s.language = Language.lumen) (host : s.options.host.Modest)
    {source : List UInt8} {program : List Stmt} (parsed : s.parse source = .ok program) :
    (∀ statement ∈ (s.machine.load program).1, statement.Uses (Expr.LiteralOf Value.Plain)) ∧
      (s.machine.load program).2.setting.Literals := by
  have formed := Lumen.session_formed lumen parsed
  have linked := linkAll_uses program #[] (fun statement member => (formed statement member).literals) (by simp)
  refine ⟨linked.1, linked.2, ?_, host⟩
  show s.language.dialect.empty.Plain
  rw [lumen]
  trivial

/-- In every state that a Lumen program goes through on a modest host, the arrays
form a forest.
Every value there can be walked over to its end, the arrays around an array are
nested in each other, and storing into it shows in it and in them alone. -/
theorem arrays_form_forest {s : Session} (lumen : s.language = Language.lumen) (host : s.options.host.Modest)
    {source : List UInt8} {program : List Stmt} (parsed : s.parse source = .ok program) (stop : State → Bool) (fuel : Nat) :
    let loaded := s.machine.load program
    let last := (runTop (interrupted stop fuel) s.language.policy loaded.1).after loaded.2.setting
      loaded.2.state
    let size := last.heap.cells.size
    last.Consistent ∧
    (∀ v : Value, v.Belongs size → last.heap.Finite v) ∧
    ∀ cell < size,
      (∀ first second, last.heap.Contains first cell → last.heap.Contains second cell →
        first = second ∨ last.heap.Contains first second ∨ last.heap.Contains second first) ∧
      ∀ v w : Value, v.Belongs size → w.Belongs size → last.heap.Outside cell w → ∀ setting path,
        ((Run.storeCopy (fun heap v => heap.append cell v) v).after setting last).heap.at? w path =
          last.heap.at? w path ∧
        ∀ i, ((Run.storeCopy (fun heap v => heap.replace cell i v) v).after setting last).heap.at? w path =
          last.heap.at? w path := by
  intro loaded last size
  obtain ⟨uses, literals⟩ := Session.load_literals lumen host parsed
  have consistent : last.Consistent :=
    (Session.machine_consistent lumen).after literals stop fuel s.language.policy uses
  refine ⟨consistent, fun v belongs => consistent.forest.finite belongs.known, fun cell known => ⟨?_, ?_⟩⟩
  · intro first second contains contains'
    exact consistent.forest.containers_nested contains contains'
  · intro v w stored belongs outside setting path
    refine ⟨?_, fun i => ?_⟩
    · exact consistent.store_apart setting known stored belongs outside (fun v => (·.push v)) path
    · exact consistent.store_apart setting known stored belongs outside (fun v => (·.setIfInBounds i v)) path

theorem parsed_nested_array :
    (⟨Language.lumen, {}⟩ : Session).parse (Text.Utf8.encode "[[]]\n") = .ok [.expr (.array [.array []])] := by
  refine Session.parse_of_tokens ⟨?tokens, ?lexed, ?read⟩
  case lexed => cbv; rfl
  case read =>
    change Lumen.grammar.parse (Lumen.context _ "" 512) _ = _
    rfl

theorem arrays_form_forest_nested :
    let s : Session := ⟨Language.lumen, {}⟩
    let program := [Stmt.expr (.array [.array []])]
    let loaded := s.machine.load program
    let last := (runTop (interrupted (fun _ => false) 9) s.language.policy loaded.1).after loaded.2.setting
      loaded.2.state
    s.parse (Text.Utf8.encode "[[]]\n") = .ok program ∧
      last.heap.cells = #[#[], #[], #[.array 1]] ∧ last.heap.Forest := by
  intro s program loaded last
  have modest : s.options.host.Modest := Host.usual_modest _
  exact ⟨parsed_nested_array, rfl, (arrays_form_forest rfl modest parsed_nested_array (fun _ => false) 9).1.forest⟩

end ScriptKernel
