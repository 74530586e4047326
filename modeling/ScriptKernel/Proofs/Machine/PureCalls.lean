import ScriptKernel.Proofs.Machine.ArgumentKeys
import ScriptKernel.Proofs.Machine.PureSteps

/-!
Calls of pure functions in two runs. A body runs on scopes of its own, so that
two calls with the same arguments have the same result wherever they are made.
That is why a kept result may stand for the call it was kept from. Expressions
and statements of confined code follow, and the fuel that ties them together.
First runs without a cache are compared by their values; with that, a run that
keeps results is followed step by step.
-/

namespace ScriptKernel

def Scope.ofBindings (bindings : List (String × Value)) (scope : Scope) : Scope :=
  bindings.foldl (fun scope (param, v) => scope.set param v) scope

theorem Scopes.bindings_push (bindings : List (String × Value)) (s : Scopes) (scope : Scope) :
    bindings.foldl (fun s (param, v) => Scopes.set param v s) (s.topped [scope]) =
      s.topped [Scope.ofBindings bindings scope] := by
  induction bindings generalizing scope with
  | nil => rfl
  | cons binding bindings ih => exact ih (Scope.set binding.1 binding.2 scope)

theorem Scope.Holds.ofBindings {functions known : List String} {scope : Scope}
    {params : List String} {args : List Value} (holds : Holds functions known scope)
    (length : args.length = params.length) (plain : ∀ param ∈ params, param ∉ functions)
    (scalars : ∀ v ∈ args, v.Scalar) :
    Holds functions (params ++ known) (Scope.ofBindings (params.zip args) scope) := by
  induction params generalizing args known scope with
  | nil => exact holds
  | cons param params ih =>
    obtain ⟨v, args, rfl⟩ := List.exists_cons_of_length_eq_add_one length
    rw [List.forall_mem_cons] at plain scalars
    have rest := ih (holds.set plain.1 scalars.1) (Nat.succ.inj length) plain.2 scalars.2
    refine rest.mono fun name member => ?_
    simp only [List.cons_append, List.mem_cons, List.mem_append] at member ⊢
    tauto

namespace Evaluators

variable {mode : Comparison} {setting : Setting} {functions : List String} {site : Site}
  {ev ev' : Evaluators} {st st' : State}

/-- After a call nothing but the cache of the second run may have changed. -/
def Returned (mode : Comparison) (setting : Setting) (functions : List String) (st st' : State)
    (last last' : State) : Prop :=
  last = st ∧ ∃ memo, last' = { st' with memo := memo } ∧
    mode.Cached setting functions { st' with memo := memo }

theorem activate_agree (agrees : Agrees mode setting functions ev ev') (pure : setting.Pure functions)
    {label : Nat} {f : Function} (known : setting.code[label]? = some f) {args : List Value}
    (scalars : ∀ v ∈ args, v.Scalar) (length : args.length = f.params.length)
    (ground : Ground mode setting functions st st') (cached : mode.Cached setting functions st') :
    Agree mode Value.Scalar (Returned mode setting functions st st')
      (ev.activate f args setting st) (ev'.activate f args setting st') := by
  have confined := pure.code label f known
  simp only [Function.confined, Bool.and_eq_true, List.all_eq_true, Bool.not_eq_true',
    List.contains_eq_mem, decide_eq_false_iff_not] at confined
  let start : State := { st with calls := st.calls + 1 }
  let start' : State := { st' with calls := st'.calls + 1 }
  let own : List Scope := [Scope.ofBindings (f.params.zip args) []]
  have entered : Ground mode setting functions start start' := by
    refine ⟨ground.heap, ground.uncached, ground.bound, fun lockstep => ?_⟩
    obtain ⟨calls, console, unbound⟩ := ground.exact lockstep
    exact ⟨congrArg (· + 1) calls, console, unbound⟩
  have kept : mode.Cached setting functions start' :=
    cached.extend (.of_eq rfl rfl) rfl
  have bound : Scope.Holds functions f.params (Scope.ofBindings (f.params.zip args) []) := by
    simpa using (Scope.Holds.nil functions).ofBindings length confined.1 scalars
  have related : Related mode setting functions (.body start start' f.params [])
      { start with scopes := st.scopes.topped own } { start' with scopes := st'.scopes.topped own } :=
    .body entered (.cons bound .nil) kept
  have agree := body_leads agrees pure (.body start start' f.params []) f.name nofun
    (by simpa [Site.outlook] using confined.2) _ _ related
  have opened (s : Scopes) : (f.params.zip args).foldl (fun s (param, v) => s.set param v) s.push =
      s.topped own := Scopes.bindings_push (f.params.zip args) s []
  have left {scope : Scope} (s : Scopes) : (s.topped [scope]).unwind s.depth = s :=
    Scopes.unwind_topped [scope] s
  simp only [Evaluators.activate, Run.inScope, opened]
  cases ran : ev.body f.name f.body setting { start with scopes := st.scopes.topped own } with
  | ok v last =>
    cases ran' : ev'.body f.name f.body setting { start' with scopes := st'.scopes.topped own } with
    | ok w last' =>
      rw [ran, ran'] at agree
      obtain ⟨same, scalar, after⟩ := agree
      cases after with
      | @body _ _ _ _ _ memo _ holds cached' =>
        cases holds with
        | cons _ none =>
          cases none
          refine ⟨same, scalar, ?_, memo, ?_, cached'.extend (.of_eq rfl rfl) rfl⟩
          · simp only [start, left, Nat.add_sub_cancel]
          · simp only [start', left, Nat.add_sub_cancel]
    | error h last' =>
      rw [ran, ran'] at agree
      exact agree
  | error h last =>
    cases ran' : ev'.body f.name f.body setting { start' with scopes := st'.scopes.topped own } with
    | ok w last' =>
      rw [ran, ran'] at agree
      exact agree
    | error h' last' =>
      rw [ran, ran'] at agree
      exact agree

structure Steady (setting : Setting) (functions : List String) (ev : Evaluators) : Prop where
  fueled : ∃ fuel, ev = evaluators fuel
  apart : ∀ fuel, Agrees .apart setting functions ev (evaluators fuel)

theorem ground_apart {other : State} (ground : Ground .lockstep setting functions st st')
    (wider : st'.Extends functions other) : Ground .apart setting functions st other := by
  refine ⟨wider.heap.trans ground.heap, ground.uncached, ?_, nofun⟩
  intro name function v found
  obtain ⟨declares, found'⟩ := ground.bound name function v found
  exact ⟨declares, wider.bound name function v found'⟩

theorem extends_first (ground : Ground .lockstep setting functions st st') :
    st'.Extends functions st := by
  refine ⟨ground.heap.symm, fun name function v found => ?_⟩
  cases first : st.scopes.find? name with
  | none =>
    rw [(ground.exact rfl).2.2 name function first] at found
    cases found
  | some w =>
    rw [(ground.bound name function w first).2] at found
    exact found

theorem settles_of_ok (steady : Steady setting functions ev) (pure : setting.Pure functions)
    {label : Nat} {f : Function} (known : setting.code[label]? = some f) {args : List Value}
    (scalars : ∀ v ∈ args, v.Scalar) (length : args.length = f.params.length)
    (ground : Ground .lockstep setting functions st st') {v : Value} {last : State}
    (ran : ev.activate f args setting st = .ok v last) : st'.Settles setting functions f args v := by
  intro fuel other wider uncached
  have agree := activate_agree (steady.apart fuel) pure known scalars length (ground_apart ground wider)
    uncached
  rw [ran] at agree
  cases ran' : (evaluators fuel).activate f args setting other with
  | ok w last' =>
    rw [ran'] at agree
    exact agree.1.symm
  | error h last' =>
    rw [ran'] at agree
    exact agree.2

theorem hit_agree (steady : Steady setting functions ev) (pure : setting.Pure functions)
    {label : Nat} {f : Function} (known : setting.code[label]? = some f) {args : List Value}
    (scalars : ∀ v ∈ args, v.Scalar) (length : args.length = f.params.length)
    (ground : Ground .lockstep setting functions st st') (sound : st'.Sound setting functions)
    {memo : Memo} (cached : st'.memo = some memo) (enabled : memo.enabled = true) {v : Value}
    (found : memo.find? label (Memo.key st'.heap args) = some v) :
    Agree .lockstep Value.Scalar (Returned .lockstep setting functions st st')
      (ev.activate f args setting st) (.ok v { st' with memo := some memo.hit }) := by
  obtain ⟨scalar, settles⟩ := sound memo cached enabled label f args v known scalars length found
  obtain ⟨fuel, rfl⟩ := steady.fueled
  have value := settles fuel st (extends_first ground) ground.uncached
  -- Compared with itself the call shows that it leaves the state as it was.
  have agree := activate_agree (steady.apart fuel) pure known scalars length
    (ground_apart ground (extends_first ground)) ground.uncached
  have hit : State.Sound setting functions { st' with memo := some memo.hit } := by
    intro cache same on label f args v known scalars length found
    cases same
    obtain ⟨scalar, settles⟩ := sound memo cached enabled label f args v known scalars length found
    exact ⟨scalar, settles.extend (.of_eq rfl rfl)⟩
  cases ran : (evaluators fuel).activate f args setting st with
  | ok w last =>
    rw [ran] at value agree
    obtain rfl := value
    exact ⟨rfl, scalar, agree.2.2.1, _, rfl, hit⟩
  | error h last =>
    rw [ran] at value
    exact .of_exhausted value

theorem sound_store {label : Nat} {f : Function} (known : setting.code[label]? = some f)
    {args : List Value} (scalars : ∀ v ∈ args, v.Scalar)
    (sound : st'.Sound setting functions) {v : Value} (scalar : v.Scalar)
    (settles : st'.Settles setting functions f args v) :
    State.Sound setting functions
      { st' with memo := st'.memo.map (·.store label (Memo.key st'.heap args) v) } := by
  intro cache same enabled label' f' args' v' known' scalars' length' found
  obtain ⟨memo, cached, rfl⟩ := Option.map_eq_some_iff.1 same
  simp only [Memo.find?, Memo.store, Std.HashMap.getElem?_insert, beq_iff_eq] at found
  split at found
  · next same =>
    cases found
    obtain ⟨rfl, keys⟩ := Prod.mk.inj same
    obtain rfl : f = f' := Option.some.inj (known.symm.trans known')
    obtain rfl := Memo.eq_of_key scalars scalars' keys
    exact ⟨scalar, settles.extend (.of_eq rfl rfl)⟩
  · obtain ⟨scalar', settles'⟩ := sound memo cached enabled label' f' args' v' known' scalars' length' found
    exact ⟨scalar', settles'.extend (.of_eq rfl rfl)⟩

theorem store_agree (agrees : Agrees .lockstep setting functions ev ev')
    (steady : Steady setting functions ev) (pure : setting.Pure functions) {label : Nat} {f : Function}
    (known : setting.code[label]? = some f) {args : List Value} (scalars : ∀ v ∈ args, v.Scalar)
    (length : args.length = f.params.length) (ground : Ground .lockstep setting functions st st')
    (sound : st'.Sound setting functions) :
    Agree .lockstep Value.Scalar (Returned .lockstep setting functions st st')
      (ev.activate f args setting st)
      ((do
        let v ← ev'.activate f args
        Run.memo (·.store label (Memo.key st'.heap args) v)
        Pure.pure v : Run Value) setting st') := by
  have agree := activate_agree agrees pure known scalars length ground sound
  cases ran : ev.activate f args setting st with
  | error h last =>
    cases ran' : ev'.activate f args setting st' with
    | ok w last' =>
      rw [ran, ran'] at agree
      exact agree.elim .of_exhausted nofun
    | error h' last' =>
      rw [ran, ran'] at agree
      rw [Run.bind_error _ ran']
      exact agree
  | ok v last =>
    cases ran' : ev'.activate f args setting st' with
    | error h' last' =>
      rw [ran, ran'] at agree
      exact nomatch agree.1
    | ok w last' =>
      rw [ran, ran'] at agree
      obtain ⟨rfl, scalar, rfl, memo, rfl, sound'⟩ := agree
      have settles := settles_of_ok steady pure known scalars length ground ran
      rw [Run.bind_ok _ ran']
      refine ⟨rfl, scalar, rfl, _, rfl, ?_⟩
      exact sound_store known scalars sound' scalar (settles.extend (.of_eq rfl rfl))

structure Comparable (mode : Comparison) (setting : Setting) (functions : List String)
    (ev ev' : Evaluators) : Prop where
  agrees : Agrees mode setting functions ev ev'
  steady : mode = .lockstep → Steady setting functions ev

theorem callFunction_uncached {label : Nat} {f : Function} {args : List Value}
    (uncached : st.Uncached) (length : args.length = f.params.length)
    (shallow : ¬(0 < setting.maxCalls ∧ setting.maxCalls ≤ st.calls)) :
    ev.callFunction label f args setting st = ev.activate f args setting st := by
  rw [callFunction, if_neg (not_not.2 length), if_neg shallow]
  cases found : st.memo with
  | none => rfl
  | some memo => simp [uncached memo found]

theorem called_agree (comparable : Comparable mode setting functions ev ev')
    (pure : setting.Pure functions) {label : Nat} {f : Function}
    (known : setting.code[label]? = some f) {args : List Value} (scalars : ∀ v ∈ args, v.Scalar)
    (length : args.length = f.params.length) (ground : Ground mode setting functions st st')
    (cached : mode.Cached setting functions st')
    (shallow : ¬(0 < setting.maxCalls ∧ setting.maxCalls ≤ st'.calls)) :
    Agree mode Value.Scalar (Returned mode setting functions st st') (ev.activate f args setting st)
      (ev'.callFunction label f args setting st') := by
  have plain (uncached : st'.Uncached) : Agree mode Value.Scalar (Returned mode setting functions st st')
      (ev.activate f args setting st) (ev'.callFunction label f args setting st') := by
    rw [callFunction_uncached uncached length shallow]
    exact activate_agree comparable.agrees pure known scalars length ground cached
  cases mode with
  | apart => exact plain cached
  | lockstep =>
    by_cases uncached : st'.Uncached
    · exact plain uncached
    · simp only [State.Uncached, not_forall, Bool.not_eq_false] at uncached
      obtain ⟨memo, found, enabled⟩ := uncached
      have steady := comparable.steady rfl
      rw [callFunction, if_neg (not_not.2 length), if_neg shallow, found]
      simp only [enabled, Bool.not_true, Bool.false_eq_true, if_false]
      cases hit : memo.find? label (Memo.key st'.heap args) with
      | some v => exact hit_agree steady pure known scalars length ground cached found enabled hit
      | none => exact store_agree comparable.agrees steady pure known scalars length ground cached

theorem callFunction_leads (comparable : Comparable mode setting functions ev ev')
    (pure : setting.Pure functions) {label : Nat} {f : Function}
    (known : setting.code[label]? = some f) {args : List Value} (scalars : ∀ v ∈ args, v.Scalar) :
    Leads mode setting functions site site Value.Scalar (ev.callFunction label f args)
      (ev'.callFunction label f args) := by
  intro st st' related
  have ground := related.ground
  by_cases length : args.length = f.params.length
  · by_cases deep : 0 < setting.maxCalls ∧ setting.maxCalls ≤ st.calls
    · rw [callFunction, if_neg (not_not.2 length), if_pos deep]
      exact .of_exhausted trivial
    · by_cases deep' : 0 < setting.maxCalls ∧ setting.maxCalls ≤ st'.calls
      · rw [callFunction.eq_def ev', if_neg (not_not.2 length), if_pos deep']
        cases mode with
        | apart => exact .of_exhausted_second rfl trivial
        | lockstep => exact absurd ((ground.exact rfl).1 ▸ deep') deep
      · rw [callFunction_uncached ground.uncached length deep]
        refine (called_agree comparable pure known scalars length ground related.cached deep').mono
          (fun _ => id) ?_
        rintro _ _ ⟨rfl, memo, rfl, cached⟩
        exact related.returned cached
  · rw [callFunction, callFunction.eq_def ev', if_pos length, if_pos length]
    exact Leads.fault _ st st' related

theorem invoke_leads (comparable : Comparable mode setting functions ev ev')
    (pure : setting.Pure functions) {callee : Value} (callable : setting.Declares callee ∨ callee.Scalar)
    {args : List Value} (scalars : ∀ v ∈ args, v.Scalar) :
    Leads mode setting functions site site Value.Scalar (ev.invoke callee args)
      (ev'.invoke callee args) := by
  rcases callable with ⟨label, name, arity, f, rfl, known⟩ | scalar
  · intro st st' related
    simp only [Evaluators.invoke, known]
    exact callFunction_leads comparable pure known scalars st st' related
  · cases scalar <;> exact Leads.fault _

end Evaluators

namespace Evaluators

variable {mode : Comparison} {setting : Setting} {functions : List String} {site : Site}
  {ev ev' : Evaluators}

theorem two_leads (agrees : Agrees mode setting functions ev ev') {left right : Expr}
    {f : Heap → Value → Value → Except RuntimeFault Value}
    (results : ∀ heap x y v, f heap x y = .ok v → v.Scalar)
    (confined : (left.confined functions site.outlook && right.confined functions site.outlook) = true) :
    Leads mode setting functions site site Value.Scalar (ev.two left right f) (ev'.two left right f) := by
  rw [Bool.and_eq_true] at confined
  refine (agrees.expr site left confined.1).bind fun x _ => (agrees.expr site right confined.2).bind fun y _ => ?_
  exact Leads.read fun heap v => results heap x y v

theorem one_leads (agrees : Agrees mode setting functions ev ev') {x : Expr}
    {f : Value → Except RuntimeFault Value} (results : ∀ x v, f x = .ok v → v.Scalar)
    (confined : x.confined functions site.outlook) :
    Leads mode setting functions site site Value.Scalar (ev.one x f) (ev'.one x f) :=
  (agrees.expr site x confined).bind fun v _ => Leads.lift fun w => results v w

theorem callee_leads (agrees : Agrees mode setting functions ev ev') {callee : Expr}
    (confined : (callee.isNameOf functions || callee.confined functions site.outlook) = true) :
    Leads mode setting functions site site (fun v => setting.Declares v ∨ v.Scalar) (ev.expr callee)
      (ev'.expr callee) := by
  rw [Bool.or_eq_true] at confined
  rcases confined with named | confined
  · cases callee with
    | var name =>
      have function : name ∈ functions := by simpa [Expr.isNameOf] using named
      exact (agrees.callee site name function).mono (fun _ => Or.inl) fun _ _ => id
    | _ => cases named
  · exact (agrees.expr site callee confined).mono (fun _ => Or.inr) fun _ _ => id

theorem evalExpr_leads (comparable : Comparable mode setting functions ev ev')
    (pure : setting.Pure functions) {x : Expr} (confined : x.confined functions site.outlook) :
    Leads mode setting functions site site Value.Scalar (ev.evalExpr x) (ev'.evalExpr x) := by
  have agrees := comparable.agrees
  cases x with
  | literal v => exact .pure (of_decide_eq_true confined)
  | var name => exact .lookup confined
  | and left right =>
    simp only [Expr.confined, Bool.and_eq_true] at confined
    refine (agrees.expr site left confined.1).bind fun v scalar => (Leads.truth v).bind fun holds _ => ?_
    cases holds with
    | true => exact agrees.expr site right confined.2
    | false => exact .pure scalar
  | or left right =>
    simp only [Expr.confined, Bool.and_eq_true] at confined
    refine (agrees.expr site left confined.1).bind fun v scalar => (Leads.truth v).bind fun holds _ => ?_
    cases holds with
    | true => exact .pure scalar
    | false => exact agrees.expr site right confined.2
  | call callee args =>
    rw [Expr.confined, Bool.and_eq_true] at confined
    refine (callee_leads agrees confined.1).bind fun v callable => ?_
    exact (all_leads agrees site confined.2).bind fun vs scalars => invoke_leads comparable pure callable scalars
  | intBinary op left right => exact two_leads agrees (fun _ _ _ _ => MiniRust.arith_scalar) confined
  | intCompare op left right => exact two_leads agrees (fun _ _ _ _ => MiniRust.compare_scalar) confined
  | intNegate x => exact one_leads agrees (fun _ _ => MiniRust.negate_scalar) confined
  | flagNot x => exact one_leads agrees (fun _ _ => MiniRust.not_scalar) confined
  | format template args =>
    exact (all_leads agrees site confined).bind fun vs _ => Leads.read fun _ _ => MiniRust.format_scalar
  | _ => cases confined

theorem host_leads (agrees : Agrees mode setting functions ev ev') (pure : setting.Pure functions) {declared : List String}
    {known : List (List String)} (selector : String) (keys : List Key) {args : List Expr}
    (confined : Expr.allConfined functions .top args) :
    Leads mode setting functions (.top declared known) (.top declared known) (fun _ => True)
      (ev.host selector keys args) (ev'.host selector keys args) := by
  intro st st' related
  simp only [Evaluators.host]
  cases setting.capabilities.bind (·.first? keys) with
  | none => exact Leads.fault _ st st' related
  | some found =>
    exact ((all_leads agrees (.top declared known) confined).bind
      fun vs _ => Leads.perform pure found.2 vs) st st' related

theorem evalStmt_leads (agrees : Agrees mode setting functions ev ev') (pure : setting.Pure functions)
    {fuel fuel' : Nat} (fueled : Fueled mode fuel fuel') {s : Stmt}
    (confined : s.confined functions site.outlook) :
    Leads mode setting functions site (site.behind s) Control.Scalar (ev.evalStmt fuel s)
      (ev'.evalStmt fuel' s) := by
  cases s with
  | expr x =>
    rcases confined_expr confined with inside | ⟨top, selector, keys, args, rfl, host⟩
    · exact (agrees.expr site x inside).bind fun _ _ => .pure trivial
    · cases site with
      | top declared known =>
        exact (agrees.host declared known selector keys args host).bind fun _ _ => .pure trivial
      | body => cases top
  | define name x =>
    simp only [Stmt.confined, Bool.and_eq_true, Bool.not_eq_true', List.contains_eq_mem,
      decide_eq_false_iff_not] at confined
    refine (agrees.expr site x confined.2).bind fun v scalar => ?_
    exact (Leads.define confined.1 scalar x).bind fun _ _ => .pure trivial
  | assign name x orDefine =>
    simp only [Stmt.confined, Bool.and_eq_true, Bool.not_eq_true'] at confined
    obtain ⟨⟨rfl, sees⟩, inside⟩ := confined
    refine (agrees.expr site x inside).bind fun v scalar => ?_
    exact (Leads.assign sees scalar).bind fun _ _ => .pure trivial
  | block body => exact block_leads agrees confined
  | cond test yes no =>
    simp only [Stmt.confined, Bool.and_eq_true] at confined
    obtain ⟨⟨tested, first⟩, second⟩ := confined
    refine (agrees.expr site test tested).bind fun v _ => (Leads.truth v).bind fun holds _ => ?_
    cases holds with
    | true => exact block_leads agrees first
    | false =>
      cases no with
      | nil => exact .pure trivial
      | cons s rest => exact block_leads agrees second
  | whileLoop test body negated =>
    simp only [Stmt.confined, Bool.and_eq_true] at confined
    exact whileLoop_leads agrees confined.1 confined.2 fueled
  | endless body => exact endless_leads agrees confined fueled
  | breakLoop => exact .pure trivial
  | continueLoop => exact .pure trivial
  | returnWith x =>
    cases x with
    | none => exact Matched.read_bind (.pure pure.empty)
    | some x => exact (agrees.expr site x confined).bind fun v scalar => .pure scalar
  | forEach | declare | setItem | push | memoize => cases confined

theorem agrees_zero {fuel : Nat} :
    Agrees mode setting functions (evaluators 0) (evaluators fuel) where
  expr _ _ _ := .halt trivial
  callee _ _ _ := .halt trivial
  host _ _ _ _ _ _ := .halt trivial
  stmt _ _ _ := .halt trivial

theorem agrees_succ {fuel fuel' : Nat} (pure : setting.Pure functions)
    (comparable : Comparable mode setting functions (evaluators fuel) (evaluators fuel'))
    (fueled : Fueled mode fuel fuel') :
    Agrees mode setting functions (evaluators (fuel + 1)) (evaluators (fuel' + 1)) where
  expr _ _ confined := evalExpr_leads comparable pure confined
  callee _ _ function := .lookup_function function
  host _ _ selector keys _ confined := host_leads comparable.agrees pure selector keys confined
  stmt _ _ confined := evalStmt_leads comparable.agrees pure fueled confined

theorem evaluators_apart (pure : setting.Pure functions) (fuel fuel' : Nat) :
    Agrees .apart setting functions (evaluators fuel) (evaluators fuel') := by
  induction fuel generalizing fuel' with
  | zero => exact agrees_zero
  | succ fuel ih =>
    cases fuel' with
    | zero =>
      have exhausted {α : Type} {P : α → Prop} {pre post : State → State → Prop} {run : Run α} :
          Matched .apart setting pre P post run (Run.halt .outOfFuel) :=
        fun _ _ _ => .of_exhausted_second rfl trivial
      exact ⟨fun _ _ _ => exhausted, fun _ _ _ => exhausted, fun _ _ _ _ _ _ => exhausted,
        fun _ _ _ => exhausted⟩
    | succ fuel' => exact agrees_succ pure ⟨ih fuel', nofun⟩ (Or.inl rfl)

theorem evaluators_steady (pure : setting.Pure functions) (fuel : Nat) :
    Steady setting functions (evaluators fuel) :=
  ⟨⟨fuel, rfl⟩, evaluators_apart pure fuel⟩

theorem evaluators_lockstep (pure : setting.Pure functions) (fuel : Nat) :
    Agrees .lockstep setting functions (evaluators fuel) (evaluators fuel) := by
  induction fuel with
  | zero => exact agrees_zero
  | succ fuel ih => exact agrees_succ pure ⟨ih, fun _ => evaluators_steady pure fuel⟩ (Or.inr le_rfl)

end Evaluators

end ScriptKernel
