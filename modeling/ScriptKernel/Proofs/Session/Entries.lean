import ScriptKernel.Proofs.Lumen.Sources
import ScriptKernel.Proofs.Machine.ScopeDiscipline
import ScriptKernel.Proofs.Machine.SideBySide
import ScriptKernel.Session.Repl

/-!
Entries that are evaluated one after the other by one machine. Unless a return
ends the first one, the machine is afterwards as if both had been one entry.
-/

namespace ScriptKernel

theorem linkAll_append (first second : List Stmt) (code : Array Function) :
    linkAll (first ++ second) code =
      ((linkAll first code).1 ++ (linkAll second (linkAll first code).2).1,
        (linkAll second (linkAll first code).2).2) := by
  induction first generalizing code with
  | nil => rfl
  | cons s first ih => simp only [List.cons_append, linkAll, ih]

theorem Machine.load_append (m : Machine) (first second : List Stmt) : m.load (first ++ second) =
    ((m.load first).1 ++ ((m.load first).2.load second).1, ((m.load first).2.load second).2) := by
  simp only [Machine.load, linkAll_append]

mutual

theorem Stmt.link_extends : ∀ (s : Stmt) (code : Array Function), code.toList <+: (s.link code).2.toList
  | .block body, code => linkAll_extends body code
  | .cond _ yes no, code => (linkAll_extends yes code).trans (linkAll_extends no _)
  | .whileLoop _ body _, code => linkAll_extends body code
  | .endless body, code => linkAll_extends body code
  | .forEach _ _ body, code => linkAll_extends body code
  | .declare _ name params body, code => by
    have inner := linkAll_extends body code
    simp only [Stmt.link, Array.toList_push]
    exact inner.trans (List.prefix_append _ _)
  | .expr _, code | .define _ _, code | .assign _ _ _, code | .breakLoop, code | .continueLoop, code
  | .returnWith _, code | .setItem _ _ _, code | .push _ _, code | .memoize _, code => List.prefix_rfl

theorem linkAll_extends : ∀ (body : List Stmt) (code : Array Function), code.toList <+: (linkAll body code).2.toList
  | [], _ => List.prefix_rfl
  | s :: rest, code => (s.link_extends code).trans (linkAll_extends rest _)

end

theorem runStatements_extends {setting : Setting} {code : Array Function} (more : setting.code.toList <+: code.toList)
    (fuel : Nat) (policy : StrayPolicy) (program : List Stmt) {st last : State} {returned : Option Value}
    (ran : runStatements (evaluators fuel) policy program setting st = .ok returned last) :
    runStatements (evaluators fuel) policy program { setting with code := code } st = .ok returned last := by
  let later : Setting := { setting with code := code }
  have fair : (beside setting later fun _ => True).Fair := by
    refine ⟨rfl, rfl, rfl, fun label => ?_, Or.inl rfl⟩
    obtain ⟨added, same⟩ := more
    change code[label]? = setting.code[label]? ∨ setting.code[label]? = none ∧ _
    rw [← Array.getElem?_toList, ← Array.getElem?_toList, ← same]
    rcases Nat.lt_or_ge label setting.code.toList.length with known | unknown
    · exact Or.inl (List.getElem?_append_left known)
    · exact Or.inr ⟨List.getElem?_eq_none unknown, fun _ => trivial⟩
  have lawful := Beside.lawful fair
  have agrees := lawful.evaluators Discipline.contains_all Discipline.functions_all rfl fuel
  have leads := agrees.statements (w := ()) (Beside.closed fair) (lawful.strays (p := ())) policy (Beside.body program)
  have same (v : Unit) (returned returned' : Option Value)
      (values : Option.Rel ((beside setting later fun _ => True).Same v) returned returned') : returned' = returned := by
    cases values with
    | none => rfl
    | some value => rw [value.1]
  rcases Discipline.Leads.follows leads same trivial with equal | ⟨h, last, stopped, -⟩
  · exact equal.trans ran
  · cases stopped.symm.trans ran

theorem runTop_through {ev : Evaluators} {policy : StrayPolicy} {first : List Stmt} {setting : Setting}
    {st last : State} (ran : runStatements ev policy first setting st = .ok none last) (second : List Stmt) :
    runTop ev policy (first ++ second) setting st = runTop ev policy second setting last := by
  rw [runTop_append]
  exact Run.bind_ok _ ran

theorem runStatements_depth (fuel : Nat) {policy : StrayPolicy} {program : List Stmt} {setting : Setting}
    {st last : State} (ran : runStatements (evaluators fuel) policy program setting st = .ok none last) :
    last.scopes.depth = st.scopes.depth := by
  have settled := runTop_settled fuel policy program setting st
  have through := runTop_through ran []
  rw [List.append_nil] at through
  rw [Run.after, through] at settled
  exact settled.scopes.depth_eq

theorem Scopes.unwind_flat {scopes : Scopes} (flat : scopes.depth = 1) : scopes.unwind 1 = scopes := by
  obtain ⟨inner, globals⟩ := scopes
  obtain rfl := List.length_eq_zero_iff.1 (Nat.succ.inj flat)
  rfl

namespace Session

variable {s : Session} {m : Machine} {program first second : List Stmt} {last : State}

def outcome (s : Session) (m : Machine) (program : List Stmt) : EStateM.Result Halt State (Option Value) :=
  runStatements (evaluators fuel) s.language.policy (m.load program).1 (m.load program).2.setting m.state

def Returns (s : Session) (m : Machine) (program : List Stmt) : Prop :=
  ∃ v last, s.outcome m program = .ok (some v) last

theorem exec_load (s : Session) (m : Machine) (program : List Stmt) : s.exec m program =
    (m.load program).2.run (runProgram fuel s.language.policy (m.load program).1) :=
  rfl

theorem runs_through {v : Value} (ran : (s.exec m program).1 = .ok v) (through : ¬s.Returns m program) :
    ∃ last, s.outcome m program = .ok none last := by
  cases run : s.outcome m program with
  | ok returned last =>
    cases returned with
    | none => exact ⟨last, rfl⟩
    | some v => exact absurd ⟨v, last, run⟩ through
  | error h last =>
    have stopped : runTop (evaluators fuel) s.language.policy (m.load program).1 (m.load program).2.setting m.state =
        .error h last := by
      rw [runTop_eq]
      exact Run.bind_error _ run
    have state : (m.load program).2.state = m.state := rfl
    rw [exec_load, Machine.run, runProgram, state, stopped] at ran
    cases ran

theorem exec_through (flat : m.state.scopes.depth = 1) (ran : s.outcome m program = .ok none last) :
    s.exec m program = (.ok m.setting.empty, { (m.load program).2 with state := last }) := by
  have ends := runTop_through ran []
  rw [List.append_nil] at ends
  have state : (m.load program).2.state = m.state := rfl
  have left := Scopes.unwind_flat ((runStatements_depth fuel ran).trans flat)
  rw [exec_load, Machine.run, runProgram, state, ends]
  change (_, { (m.load program).2 with state := { last with scopes := last.scopes.unwind 1 } }) = _
  rw [left]
  rfl

/-- A program that is run to its end leaves the machine where statements behind
it would go on. -/
theorem exec_append (flat : m.state.scopes.depth = 1) (ran : s.outcome m first = .ok none last) (second : List Stmt) :
    s.exec m (first ++ second) = s.exec (s.exec m first).2 second := by
  let loaded := (m.load first).2.load second
  have more : (m.load first).2.setting.code.toList <+: loaded.2.setting.code.toList := linkAll_extends second _
  -- The first statements do not see that the second ones are loaded, too.
  have ahead : runProgram fuel s.language.policy ((m.load first).1 ++ loaded.1) loaded.2.setting m.state =
      runProgram fuel s.language.policy loaded.1 loaded.2.setting last := by
    have through := runTop_through (runStatements_extends more fuel s.language.policy _ ran) loaded.1
    change runTop _ _ _ loaded.2.setting _ = runTop _ _ _ loaded.2.setting _ at through
    rw [runProgram, runProgram, through]
  have whole : s.exec m (first ++ second) =
      loaded.2.run (runProgram fuel s.language.policy ((m.load first).1 ++ loaded.1)) := by
    rw [exec_load, Machine.load_append]
  have later : s.exec (s.exec m first).2 second =
      ({ loaded.2 with state := last } : Machine).run (runProgram fuel s.language.policy loaded.1) := by
    rw [exec_through flat ran, exec_load]
    rfl
  have state : loaded.2.state = m.state := rfl
  rw [whole, later, Machine.run, Machine.run, state, ahead]

theorem state_run {α : Type} (m : Machine) (step : Run α) : (m.run step).2.state = step.after m.setting m.state := by
  rw [Machine.run, Run.after]
  cases step m.setting m.state with
  | ok a last => rfl
  | error h last => rfl

theorem depth_exec (s : Session) (m : Machine) (program : List Stmt) :
    (s.exec m program).2.state.scopes.depth = 1 := by
  rw [exec_load, state_run, runProgram_after]
  exact Scopes.depth_unwind _ 1 Nat.le.refl (Nat.le_add_left 1 _)

end Session

namespace Repl

variable {s : Session} {m : Machine} {source : List UInt8} {program : List Stmt}

theorem depth_eval (s : Session) (source : List UInt8) (flat : m.state.scopes.depth = 1) :
    (eval s m source).2.state.scopes.depth = 1 := by
  unfold eval
  split
  · exact flat
  next program _ =>
    have left := s.depth_exec m program
    split
    next ran => rwa [ran] at left
    next ran =>
      rw [ran] at left
      split
      · exact left
      · exact left

theorem eval_through (parsed : s.parse source = .ok program) (flat : m.state.scopes.depth = 1)
    (done : (eval s m source).1 = none) (through : ¬s.Returns m program) :
    ∃ last, s.outcome m program = .ok none last ∧ (eval s m source).2 = (s.exec m program).2 := by
  have ran : ∃ v, (s.exec m program).1 = .ok v := by
    rw [eval, parsed] at done
    cases result : s.exec m program with
    | mk outcome after =>
      cases outcome with
      | ok v => exact ⟨v, rfl⟩
      | error h => simp [result] at done
  obtain ⟨v, ran⟩ := ran
  obtain ⟨last, run⟩ := Session.runs_through ran through
  have silent : echo { (m.load program).2 with state := last } m.setting.empty = none := if_pos (Or.inr rfl)
  refine ⟨last, run, ?_⟩
  simp only [eval, parsed, Session.exec_through flat run, silent]

/-- Entries compose like a file. A source that ends with a newline and one that is
put behind it are parsed as the statements of the one and then of the other.
So an evaluator, whose machine has the global scope alone whenever an entry is
over, does with the one entry and then the other what it does with both at
once, unless the first one fails or a return ends it. -/
theorem entries_compose (lumen : s.language = Language.lumen) {first second : List UInt8}
    (newline : first.getLast? = some 10) {x₁ x₂ : List Stmt} (parsed₁ : s.parse first = .ok x₁)
    (parsed₂ : s.parse second = .ok x₂) :
    s.parse (first ++ second) = .ok (x₁ ++ x₂) ∧
    ∀ m : Machine, m.state.scopes.depth = 1 → (eval s m first).1 = none → ¬s.Returns m x₁ →
      eval s m (first ++ second) = eval s (eval s m first).2 second ∧
      (eval s m first).2.state.scopes.depth = 1 := by
  have parsed := Lumen.parse_sources lumen newline parsed₁ parsed₂
  refine ⟨parsed, fun m flat done through => ⟨?_, depth_eval s first flat⟩⟩
  obtain ⟨last, ran, same⟩ := eval_through parsed₁ flat done through
  rw [same]
  simp only [eval, parsed, parsed₂, Session.exec_append flat ran]

theorem parsed_declaration :
    (⟨Language.lumen, {}⟩ : Session).parse (Text.Utf8.encode "fn f()\n    len\n") =
      .ok [.declare 0 "f" [] [.expr (.var "len")]] := by
  refine Session.parse_of_tokens ⟨?tokens, ?lexed, ?read⟩
  case lexed => cbv; rfl
  case read =>
    change Lumen.grammar.parse (Lumen.context _ "" 512) _ = _
    rfl

theorem parsed_call :
    (⟨Language.lumen, {}⟩ : Session).parse (Text.Utf8.encode "a=f()\n") =
      .ok [.assign "a" (.call (.var "f") []) true] := by
  refine Session.parse_of_tokens ⟨?tokens, ?lexed, ?read⟩
  case lexed => cbv; rfl
  case read =>
    change Lumen.grammar.parse (Lumen.context _ "" 512) _ = _
    rfl

theorem entries_compose_call :
    let s : Session := ⟨Language.lumen, {}⟩
    let first := Text.Utf8.encode "fn f()\n    len\n"
    let second := Text.Utf8.encode "a=f()\n"
    let declare := Stmt.declare 0 "f" [] [.expr (.var "len")]
    let call := Stmt.assign "a" (.call (.var "f") []) true
    first.getLast? = some 10 ∧ s.parse first = .ok [declare] ∧ s.parse second = .ok [call] ∧
      s.parse (first ++ second) = .ok [declare, call] ∧ s.machine.state.scopes.depth = 1 ∧
      (eval s s.machine first).1 = none ∧ ¬s.Returns s.machine [declare] ∧
      eval s s.machine (first ++ second) = eval s (eval s s.machine first).2 second := by
  intro s first second declare call
  have newline : (Text.Utf8.encode "fn f()\n    len\n").getLast? = some 10 := by
    rw [Text.Utf8.encode_eq]
    decide
  have done : (eval s s.machine first).1 = none := by
    rw [eval, parsed_declaration]
    rfl
  have through : ¬s.Returns s.machine [declare] := by
    rintro ⟨v, last, returned⟩
    cases returned
  obtain ⟨parsed, composed⟩ := entries_compose rfl newline parsed_declaration parsed_call
  exact ⟨newline, parsed_declaration, parsed_call, parsed, rfl, done, through,
    (composed s.machine rfl done through).1⟩

end Repl

end ScriptKernel
