import ScriptKernel.Proofs.Machine.CacheSteps

/-!
The switch of the cache and what a kept result shares. Nothing is kept while the
cache is off, where no function switches the cache itself. A function that does
switch it off leaves its own result behind in a cache that is off. As long as
the cache stays on, later calls give the very value that is kept. Where it is an
array, they give the same cell and with it whatever has been done to the array
since the first call, so that the cache shows even where functions are pure.
-/

namespace ScriptKernel

namespace Evaluators

theorem callFunction_keeps {ev : Evaluators} {setting : Setting} {st last : State} {label : Nat}
    {f : Function} {args : List Value} {memo : Memo} {v : Value} (length : args.length = f.params.length)
    (shallow : ¬(0 < setting.maxCalls ∧ setting.maxCalls ≤ st.calls)) (cached : st.memo = some memo)
    (on : memo.enabled = true) (new : memo.find? label (Memo.key st.heap args) = none)
    (ran : ev.activate f args setting st = .ok v last) :
    ev.callFunction label f args setting st =
      .ok v { last with memo := last.memo.map (·.store label (Memo.key st.heap args) v) } := by
  rw [callFunction, if_neg (not_not.2 length), if_neg shallow, cached]
  simp only [on, Bool.not_true, Bool.false_eq_true, if_false, new]
  rw [Run.bind_ok _ ran]
  rfl

end Evaluators

theorem runTop_normal {ev : Evaluators} {policy : StrayPolicy} {s : Stmt} {rest : List Stmt}
    {setting : Setting} {st next : State} (ran : ev.stmt s setting st = .ok .normal next) :
    runTop ev policy (s :: rest) setting st = runTop ev policy rest setting next :=
  Run.bind_ok _ ran

namespace DroppedResult

def ready : Function :=
  ⟨"ready", [], [.returnWith (some (.literal (.bool true)))]⟩

def keeping : List Stmt :=
  [.declare 0 "ready" [] ready.body, .memoize true, .expr (.call (.var "ready") [])]

def lumen : Setting :=
  { (⟨Language.lumen, {}⟩ : Session).machine.setting with code := #[ready] }

def start : State :=
  (⟨Language.lumen, {}⟩ : Session).machine.state

def declared (memo : Memo) : State :=
  { start with scopes := Scopes.set "ready" (.function 0 "ready" 0) start.scopes, memo := memo }

def on : Memo :=
  ({} : Memo).enable true

def kept : Memo :=
  on.store 0 "" (.bool true)

theorem quiet : lumen.Quiet := by
  intro label f found
  rcases label with - | label
  · cases found
    rfl
  · cases found

theorem start_forgetful : start.Forgetful := by
  rintro memo ⟨⟩ -
  simp [Memo.size, Memo.enable]

theorem call_ready : (evaluators 8).expr (.call (.var "ready") []) lumen (declared on) =
    .ok (.bool true) (declared kept) := by
  have new : on.find? 0 "" = none := by simp [on, Memo.find?, Memo.enable]
  have ran : (evaluators 7).activate ready [] lumen (declared on) = .ok (.bool true) (declared on) := rfl
  have shallow : ¬(0 < lumen.maxCalls ∧ lumen.maxCalls ≤ (declared on).calls) := by decide
  exact Evaluators.callFunction_keeps rfl shallow rfl rfl new ran

theorem runTop_keeping (rest : List Stmt) : runTop (evaluators 9) .reject (keeping ++ rest) lumen start =
    runTop (evaluators 9) .reject rest lumen (declared kept) := by
  have declare : (evaluators 9).stmt (.declare 0 "ready" [] ready.body) lumen start =
      .ok .normal (declared {}) := rfl
  have switch : (evaluators 9).stmt (.memoize true) lumen (declared {}) = .ok .normal (declared on) := rfl
  have call : (evaluators 9).stmt (.expr (.call (.var "ready") [])) lumen (declared on) =
      .ok .normal (declared kept) := Run.bind_ok _ call_ready
  exact (runTop_normal declare).trans ((runTop_normal switch).trans (runTop_normal call))

end DroppedResult

/-- A disabled cache is empty, at every point of a run and however the parts of
the program end, if no function switches the cache. The program itself may. -/
theorem disabled_cache_empty (fuel : Nat) {setting : Setting} (quiet : setting.Quiet) {st : State}
    (forgetful : st.Forgetful) :
    (∀ x, (((evaluators fuel).expr x).after setting st).Forgetful) ∧
      (∀ s, (((evaluators fuel).stmt s).after setting st).Forgetful) ∧
      ∀ policy program, ((runProgram fuel policy program).after setting st).Forgetful := by
  obtain ⟨exprs, stmts, programs⟩ := evaluators_cacheStep quiet fuel st
  refine ⟨fun x => (exprs x).forgets forgetful, fun s => (stmts s).forgets forgetful, fun policy program => ?_⟩
  rw [runProgram_after]
  exact (programs policy program).forgets forgetful

open DroppedResult in
theorem disabled_cache_empty_ready :
    let before := (runProgram 9 .reject keeping).after lumen start
    let last := (runProgram 9 .reject (keeping ++ [.memoize false])).after lumen start
    before.memo.map Memo.size = some 1 ∧ last.switch = some false ∧ last.Forgetful := by
  intro before last
  have ran : (runTop (evaluators 9) .reject keeping).after lumen start = declared kept := by
    rw [← List.append_nil keeping, Run.after, runTop_keeping]
    rfl
  have ended : (runTop (evaluators 9) .reject (keeping ++ [.memoize false])).after lumen start =
      declared (kept.enable false) := by
    rw [Run.after, runTop_keeping]
    rfl
  refine ⟨?_, ?_, (disabled_cache_empty 9 quiet start_forgetful).2.2 .reject _⟩
  · have one : kept.size = 1 := by
      rw [Memo.size, kept, Memo.store, Std.HashMap.size_insert]
      simp [on, Memo.enable]
    simp only [before, runProgram_after, ran, declared, Option.map_some, one]
  · simp only [last, runProgram_after, ended]
    rfl

theorem Session.exec_ok {s : Session} {m loaded : Machine} {program linked : List Stmt} {v : Value}
    {last : State} (load : m.load program = (linked, loaded)) (need : Nat) (affordable : need ≤ fuel)
    (ran : ∀ spare, runTop (evaluators (spare + need)) s.language.policy linked loaded.setting
      loaded.state = .ok v last) :
    s.exec m program =
      (.ok v, { loaded with state := { last with scopes := last.scopes.unwind 1 } }) := by
  have ran := ran (fuel - need)
  rw [Nat.sub_add_cancel affordable] at ran
  unfold exec
  rw [load]
  show Machine.run loaded (runProgram fuel s.language.policy linked) = _
  rw [Machine.run, runProgram, ran]

namespace SelfSwitching

def leaving : Function :=
  ⟨"f", [], [.memoize false, .returnWith (some (.literal (.string "kept")))]⟩

def program : List Stmt :=
  [.declare 0 "f" [] leaving.body, .memoize true, .expr (.call (.var "f") [])]

def lumen : Setting :=
  { (⟨Language.lumen, {}⟩ : Session).machine.setting with code := #[leaving] }

def declared (memo : Memo) : State where
  scopes := Scopes.set "f" (.function 0 "f" 0) { globals := Language.lumen.globals }
  memo := some memo

def kept : Memo :=
  ({} : Memo).store 0 "" (.string "kept")

theorem call_after (spare : Nat) :
    (evaluators (spare + 4)).expr (.call (.var "f") []) lumen (declared (({} : Memo).enable true)) =
      .ok (.string "kept") (declared kept) := by
  have new : (({} : Memo).enable true).find? 0 "" = none := by simp [Memo.find?, Memo.enable]
  have ran : (evaluators (spare + 3)).activate leaving [] lumen (declared (({} : Memo).enable true)) =
      .ok (.string "kept") (declared {}) := rfl
  have shallow : ¬(0 < lumen.maxCalls ∧
      lumen.maxCalls ≤ (declared (({} : Memo).enable true)).calls) := by decide
  exact Evaluators.callFunction_keeps rfl shallow rfl rfl new ran

theorem runTop_after {spare : Nat} {st : State}
    (declare : (evaluators (spare + 5)).stmt (.declare 0 "f" [] leaving.body) lumen st =
      .ok .normal (declared {})) :
    runTop (evaluators (spare + 5)) .reject program lumen st = .ok .none (declared kept) := by
  have switched : (evaluators (spare + 5)).stmt (.memoize true) lumen (declared {}) =
      .ok .normal (declared (({} : Memo).enable true)) := rfl
  have called : (evaluators (spare + 5)).stmt (.expr (.call (.var "f") [])) lumen
      (declared (({} : Memo).enable true)) = .ok .normal (declared kept) :=
    Run.bind_ok _ (call_after spare)
  calc runTop (evaluators (spare + 5)) .reject program lumen st
    _ = runTop (evaluators (spare + 5)) .reject (program.drop 1) lumen (declared {}) := runTop_normal declare
    _ = runTop (evaluators (spare + 5)) .reject (program.drop 2) lumen (declared (({} : Memo).enable true)) :=
      runTop_normal switched
    _ = runTop (evaluators (spare + 5)) .reject [] lumen (declared kept) := runTop_normal called
    _ = .ok .none (declared kept) := rfl

end SelfSwitching

open SelfSwitching in
/-- The call ends with the cache off and its result in it. -/
theorem disabled_cache_keeps :
    let s : Session := ⟨Language.lumen, {}⟩
    ∃ memo, (s.exec s.machine program).2.state.memo = some memo ∧ memo.enabled = false ∧
      memo.size = 1 := by
  intro s
  have load : s.machine.load program = (program, { s.machine with setting := lumen }) := rfl
  have ran (spare : Nat) : runTop (evaluators (spare + 5)) .reject program lumen s.machine.state =
      .ok .none (declared kept) := runTop_after rfl
  rw [Session.exec_ok load 5 (by decide) ran]
  refine ⟨kept, rfl, rfl, ?_⟩
  rw [Memo.size, kept, Memo.store, Std.HashMap.size_insert]
  simp

section

variable {setting : Setting} {st : State} {label : Nat} {key : String} {v : Value}

theorem State.Keeps.after (kept : st.Keeps label key v) (quiet : setting.Quiet) (fuel : Nat) {s : Stmt}
    (bound : s.switches = false) : (((evaluators fuel).stmt s).after setting st).Keeps label key v :=
  ((evaluators_cacheStep quiet fuel st).2.1 s).keeps bound label key v kept

theorem Evaluators.callFunction_kept {ev : Evaluators} {f : Function} {args : List Value}
    (kept : st.Keeps label (Memo.key st.heap args) v) (length : args.length = f.params.length)
    (shallow : ¬(0 < setting.maxCalls ∧ setting.maxCalls ≤ st.calls)) :
    ev.callFunction label f args setting st = .ok v { st with memo := st.memo.map Memo.hit } := by
  obtain ⟨memo, cached, on, held⟩ := kept
  rw [callFunction, if_neg (not_not.2 length), if_neg shallow, cached]
  simp only [on, Bool.not_true, Bool.false_eq_true, if_false, held]
  rfl

/-- Behind a statement that does not throw the switch, a call whose result has
been kept before gives the value that was kept, and nothing else changes. -/
theorem kept_result_shared (quiet : setting.Quiet) (kept : st.Keeps label key v) (fuel : Nat) {s : Stmt}
    (bound : s.switches = false) (ev : Evaluators) {f : Function} {args : List Value} :
    let last := ((evaluators fuel).stmt s).after setting st
    Memo.key last.heap args = key → args.length = f.params.length →
      ¬(0 < setting.maxCalls ∧ setting.maxCalls ≤ last.calls) →
        ev.callFunction label f args setting last =
          .ok v { last with memo := last.memo.map Memo.hit } := by
  intro last same length shallow
  have still : last.Keeps label (Memo.key last.heap args) v := same ▸ kept.after quiet fuel bound
  exact Evaluators.callFunction_kept still length shallow

end

namespace SharedResult

def single : Function :=
  ⟨"single", [], [.returnWith (some (.array [.literal (.bool true)]))]⟩

abbrev call : Expr :=
  .call (.var "single") []

abbrev search : List Stmt :=
  [.cond (.not (.var "x")) [.returnWith (some (.var "x"))] []]

def program : List Stmt :=
  [.declare 0 "single" [] single.body,
    .define "a" call,
    .push (.var "a") (.literal (.bool false)),
    .forEach "x" call search]

def lumen : Setting :=
  { (⟨Language.lumen, {}⟩ : Session).machine.setting with code := #[single] }

theorem quiet : lumen.Quiet := by
  intro label f found
  rcases label with - | label
  · cases found
    rfl
  · cases found

/-! The states between the statements, with any cache. -/

def declared (memo : Memo) : State where
  scopes := Scopes.set "single" (.function 0 "single" 0) { globals := Language.lumen.globals }
  memo := some memo

def called (memo : Memo) : State :=
  { declared memo with heap := ⟨#[#[.bool true]]⟩ }

def defined (memo : Memo) : State :=
  { called memo with scopes := Scopes.set "a" (.array 0) (declared memo).scopes }

def pushed (memo : Memo) : State :=
  { defined memo with heap := ⟨#[#[.bool true, .bool false]]⟩ }

def calledAgain (memo : Memo) : State :=
  { pushed memo with heap := ⟨#[#[.bool true, .bool false], #[.bool true]]⟩ }

def fresh : Memo :=
  ({} : Memo).enable true

def kept : Memo :=
  fresh.store 0 "" (.array 0)

theorem defined_keeps : (defined kept).Keeps 0 "" (.array 0) := by
  refine ⟨kept, rfl, rfl, ?_⟩
  rw [kept, Memo.find?_store, if_pos rfl]

end SharedResult

open SharedResult in
theorem kept_result_shared_push :
    let last := ((evaluators 2).stmt (.push (.var "a") (.literal (.bool false)))).after lumen
      (defined kept)
    last.heap.items 0 = #[.bool true, .bool false] ∧
      (evaluators 9).callFunction 0 single [] lumen last =
        .ok (.array 0) { last with memo := last.memo.map Memo.hit } := by
  intro last
  have shallow : ¬(0 < lumen.maxCalls ∧ lumen.maxCalls ≤ last.calls) := by decide
  exact ⟨rfl, kept_result_shared quiet defined_keeps 2 rfl (evaluators 9) rfl rfl shallow⟩

namespace SharedResult

variable {spare : Nat} {memo memo' : Memo} {st st' last : State}

theorem activate_declared (spare : Nat) : (evaluators (spare + 3)).activate single [] lumen
    (declared memo) = .ok (.array 0) (called memo) :=
  rfl

theorem activate_pushed (spare : Nat) : (evaluators (spare + 3)).activate single [] lumen
    (pushed memo) = .ok (.array 1) (calledAgain memo) :=
  rfl

theorem define_after (ran : (evaluators (spare + 5)).expr call lumen (declared memo) =
      .ok (.array 0) (called memo')) :
    (evaluators (spare + 6)).stmt (.define "a" call) lumen (declared memo) =
      .ok .normal (defined memo') :=
  Run.bind_ok _ ran

theorem push_after : (evaluators (spare + 6)).stmt (.push (.var "a") (.literal (.bool false)))
    lumen (defined memo) = .ok .normal (pushed memo) :=
  rfl

theorem forEach_after {cell : Nat} {c : Control}
    (ran : (evaluators (spare + 5)).expr call lumen st = .ok (.array cell) st')
    (found : (evaluators (spare + 5)).forItems "x" search (st'.heap.items cell).toList
      lumen st' = .ok c last) :
    (evaluators (spare + 6)).stmt (.forEach "x" call search) lumen st = .ok c last :=
  (Run.bind_ok _ ran).trans found

theorem search_pushed : (evaluators (spare + 5)).forItems "x" search [.bool true, .bool false]
    lumen (pushed memo) = .ok (.returning (.bool false)) (pushed memo) :=
  rfl

theorem search_calledAgain : (evaluators (spare + 5)).forItems "x" search [.bool true]
    lumen (calledAgain memo) = .ok .normal (calledAgain memo) :=
  rfl

theorem runTop_off (declare : (evaluators (spare + 6)).stmt (.declare 0 "single" [] single.body)
      lumen st = .ok .normal (declared {})) :
    runTop (evaluators (spare + 6)) .reject program lumen st = .ok .none (calledAgain {}) := by
  have first : (evaluators (spare + 5)).expr call lumen (declared {}) =
      .ok (.array 0) (called {}) := activate_declared (spare + 1)
  have second : (evaluators (spare + 5)).expr call lumen (pushed {}) =
      .ok (.array 1) (calledAgain {}) := activate_pushed (spare + 1)
  rw [program, runTop_normal declare, runTop_normal (define_after first), runTop_normal push_after,
    runTop_normal (forEach_after second search_calledAgain)]
  rfl

theorem runTop_on (declare : (evaluators (spare + 6)).stmt (.declare 0 "single" [] single.body)
      lumen st = .ok .normal (declared fresh)) :
    runTop (evaluators (spare + 6)) .reject program lumen st = .ok (.bool false) (pushed kept.hit) := by
  have first : (evaluators (spare + 5)).expr call lumen (declared fresh) =
      .ok (.array 0) (called kept) := by
    have new : fresh.find? 0 "" = none := by simp [fresh, Memo.find?, Memo.enable]
    have shallow : ¬(0 < lumen.maxCalls ∧ lumen.maxCalls ≤ (declared fresh).calls) := by decide
    exact Evaluators.callFunction_keeps rfl shallow rfl rfl new (activate_declared (spare + 1))
  have second : (evaluators (spare + 5)).expr call lumen (pushed kept) =
      .ok (.array 0) (pushed kept.hit) := by
    have still : (pushed kept).Keeps 0 "" (.array 0) := defined_keeps
    have length : ([] : List Value).length = single.params.length := rfl
    have shallow : ¬(0 < lumen.maxCalls ∧ lumen.maxCalls ≤ (pushed kept).calls) := by decide
    exact Evaluators.callFunction_kept still length shallow
  rw [program, runTop_normal declare, runTop_normal (define_after first), runTop_normal push_after]
  exact Run.bind_ok _ (forEach_after second search_pushed)

end SharedResult

open SharedResult in
/-- The program ends without a value when no results are kept, and with the
value that was pushed when they are. -/
theorem memoization_visible :
    let session (on : Bool) : Session := ⟨Language.lumen, { memoize := on }⟩
    let outcome (on : Bool) := ((session on).exec (session on).machine program).1
    outcome false = .ok .none ∧ outcome true = .ok (.bool false) := by
  intro session outcome
  have load (on : Bool) : (session on).machine.load program =
      (program, { (session on).machine with setting := lumen }) := rfl
  have off (spare : Nat) : runTop (evaluators (spare + 6)) .reject program lumen
      (session false).machine.state = .ok .none (calledAgain {}) := runTop_off rfl
  have on (spare : Nat) : runTop (evaluators (spare + 6)) .reject program lumen
      (session true).machine.state = .ok (.bool false) (pushed kept.hit) := runTop_on rfl
  have ended := Session.exec_ok (s := session false) (load false) 6 (by decide) off
  have ended' := Session.exec_ok (s := session true) (load true) 6 (by decide) on
  exact ⟨congrArg Prod.fst ended, congrArg Prod.fst ended'⟩

end ScriptKernel
