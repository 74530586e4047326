import Mathlib
import ScriptKernel.Proofs.Machine.ScopeDiscipline
import ScriptKernel.Session.Basic

/-!
The cache along a run. Where no function switches the cache itself, nothing is
kept while the cache is off, whatever else the program switches and when, and
what is kept while it is on stays until it is switched off.
-/

namespace ScriptKernel

mutual

/-- Whether a statement switches the cache, the functions it calls aside. -/
def Stmt.switches : Stmt → Bool
  | .memoize _ => true
  | .block body => Stmt.anySwitches body
  | .cond _ yes no => Stmt.anySwitches yes || Stmt.anySwitches no
  | .whileLoop _ body _ => Stmt.anySwitches body
  | .endless body => Stmt.anySwitches body
  | .forEach _ _ body => Stmt.anySwitches body
  | _ => false

def Stmt.anySwitches : List Stmt → Bool
  | [] => false
  | s :: rest => s.switches || Stmt.anySwitches rest

end

theorem Stmt.anySwitches_of_mem {s : Stmt} {body : List Stmt} (member : s ∈ body) (switch : s.switches) :
    Stmt.anySwitches body := by
  induction member with
  | head rest => simp only [anySwitches, switch, Bool.true_or]
  | tail first _ ih => simp only [anySwitches, ih, Bool.or_true]

theorem Stmt.switches_of_inner {s t : Stmt} (member : t ∈ s.inner) (switch : t.switches) : s.switches := by
  cases s with
  | block body => exact anySwitches_of_mem member switch
  | whileLoop test body negated => exact anySwitches_of_mem member switch
  | endless body => exact anySwitches_of_mem member switch
  | forEach name items body => exact anySwitches_of_mem member switch
  | cond test yes no =>
    rw [switches, Bool.or_eq_true]
    exact (List.mem_append.1 member).imp (anySwitches_of_mem · switch) (anySwitches_of_mem · switch)
  | _ => cases member

def Setting.Quiet (setting : Setting) : Prop :=
  ∀ (label : Nat) f, setting.code[label]? = some f → Stmt.anySwitches f.body = false

/-- Nothing is kept while the cache is off. -/
def State.Forgetful (st : State) : Prop :=
  ∀ memo, st.memo = some memo → memo.enabled = false → memo.size = 0

def State.switch (st : State) : Option Bool :=
  st.memo.map (·.enabled)

/-- The cache is on and has this result of the function for the key. -/
def State.Keeps (label : Nat) (key : String) (v : Value) (st : State) : Prop :=
  ∃ memo, st.memo = some memo ∧ memo.enabled = true ∧ memo.find? label key = some v

/-- How the cache may change while a part of a program runs. Only a part that is
free to do so throws the switch; any other leaves the results that are kept. -/
structure State.CacheStep (free : Bool) (before after : State) : Prop where
  forgets : before.Forgetful → after.Forgetful
  switch : free = false → after.switch = before.switch
  keeps : free = false → ∀ label key v, before.Keeps label key v → after.Keeps label key v

theorem Memo.find?_store (m : Memo) (label other : Nat) (key text : String) (v : Value) :
    (m.store label key v).find? other text =
      if (label, key) = (other, text) then some v else m.find? other text := by
  simp only [Memo.find?, Memo.store, Std.HashMap.getElem?_insert, beq_iff_eq]

namespace State.CacheStep

variable {free : Bool} {st mid last : State}

theorem of_memo (same : last.memo = st.memo) : st.CacheStep free last := by
  refine ⟨fun forgetful memo found => forgetful memo (same ▸ found), fun _ => ?_, fun _ label key v kept => ?_⟩
  · rw [State.switch, same, State.switch]
  · rwa [State.Keeps, same]

theorem trans (first : st.CacheStep free mid) (second : mid.CacheStep free last) :
    st.CacheStep free last where
  forgets := second.forgets ∘ first.forgets
  switch bound := (second.switch bound).trans (first.switch bound)
  keeps bound label key v kept := second.keeps bound label key v (first.keeps bound label key v kept)

theorem mono {wider : Bool} (step : st.CacheStep free last) (sub : free → wider) :
    st.CacheStep wider last := by
  have stays (bound : wider = false) : free = false := by
    cases free with
    | false => rfl
    | true => exact absurd (sub rfl) (by rw [bound]; exact Bool.false_ne_true)
  exact ⟨step.forgets, fun bound => step.switch (stays bound), fun bound => step.keeps (stays bound)⟩

theorem of_on (memo : Memo) (on : memo.enabled = true) (before : st.switch = some true)
    (after : last.memo = some memo)
    (more : ∀ label key v, st.Keeps label key v → memo.find? label key = some v) :
    st.CacheStep free last := by
  refine ⟨fun _ found kept off => ?_, fun _ => ?_, fun _ label key v kept => ?_⟩
  · rw [after] at kept
    cases kept
    rw [on] at off
    cases off
  · rw [before, State.switch, after, Option.map_some, on]
  · exact ⟨memo, after, on, more label key v kept⟩

end State.CacheStep

theorem Memo.forgetful_enable (memo : Memo) (on : Bool) (off : (memo.enable on).enabled = false) :
    (memo.enable on).size = 0 := by
  cases on with
  | true => cases off
  | false => simp [Memo.enable, Memo.size]

def cacheSafe (setting : Setting) : Discipline where
  setting := setting
  Place := Bool
  Moves free st last := st.CacheStep free last
  call _ := false
  body _ := false

namespace CacheSafe

def code (setting : Setting) : (cacheSafe setting).Code where
  Does (free : Bool) s := s.switches → free

variable {setting : Setting} {free : Bool}

theorem contains : ((cacheSafe setting).correspondence (code setting)).Contains :=
  Discipline.contains_of_parts (fun _ _ => trivial) (fun _ _ => trivial) (fun _ => trivial)
    (fun does member switch => does (Stmt.switches_of_inner member switch)) (fun _ _ => trivial) (fun _ => trivial)
    fun _ => trivial

/-- A result is kept only if the cache was on before the body, and then it is
still on. -/
theorem step_store {st last : State} {memo : Memo} {label : Nat} {key : String} {v : Value}
    (found : st.memo = some memo) (on : memo.enabled = true) (new : memo.find? label key = none)
    (step : st.CacheStep false last) : st.CacheStep false { last with memo := last.memo.map (·.store label key v) } := by
  have switch : st.switch = some true := by rw [State.switch, found, Option.map_some, on]
  have still : last.switch = some true := (step.switch rfl).trans switch
  obtain ⟨kept, cached, enabled⟩ := Option.map_eq_some_iff.1 still
  refine .of_on (kept.store label key v) enabled switch (by rw [cached]; rfl) fun other text w earlier => ?_
  obtain ⟨memo', same, -, held⟩ := earlier
  rw [found] at same
  cases same
  -- What was kept before the call is not what the call has looked for in vain.
  have differs : (label, key) ≠ (other, text) := by
    rintro ⟨⟩
    rw [new] at held
    cases held
  obtain ⟨memo', same, -, held⟩ := step.keeps rfl other text w ⟨memo, found, on, held⟩
  rw [cached] at same
  cases same
  rw [Memo.find?_store, if_neg differs, held]

theorem kept : (cacheSafe setting).Kept (code setting) where
  refl _ _ := .of_memo rfl
  trans := .trans
  change := by
    intro w free st last made _ change
    refine ⟨?_, w, le_rfl, trivial, fun _ _ => trivial⟩
    cases change with
    | @memoize memo on does cached =>
      obtain rfl : free = true := does rfl
      refine ⟨fun _ => ?_, nofun, nofun⟩
      rintro _ ⟨⟩ off
      exact memo.forgetful_enable on off
    | @hit memo label key v cached on found =>
      refine .of_on memo.hit on (by rw [State.switch, cached, Option.map_some, on]) rfl fun other text w kept => ?_
      obtain ⟨memo', same, -, held⟩ := kept
      rw [cached] at same
      cases same
      exact held
    | _ => exact .of_memo rfl
  frame := by
    intro w free inside calls bindings st opens _ _
    refine ⟨trivial, fun v last _ _ moves => ⟨trivial, ?_⟩⟩
    have step : st.CacheStep inside (last.leave st.scopes.depth calls) := ⟨moves.forgets, moves.switch, moves.keeps⟩
    rcases opens with ⟨s, -, rfl, -⟩ | ⟨rfl, -⟩
    · exact step
    · exact step.mono nofun
  store found on new _ step _ := ⟨trivial, step_store found on new step⟩
  call := Iff.rfl
  called step := step.mono nofun

theorem lawful : (cacheSafe setting).Lawful (code setting) :=
  kept.lawful rfl (fun _ _ => trivial) fun _ => trivial

theorem evaluators_agree (quiet : setting.Quiet) (fuel : Nat) :
    ((cacheSafe setting).correspondence (code setting)).Agrees (evaluators fuel) (evaluators fuel) :=
  lawful.evaluators contains (fun label f known _ => Discipline.body_of_all fun _ member switch =>
    (quiet label f known).symm.trans (Stmt.anySwitches_of_mem member switch)) rfl fuel

end CacheSafe

theorem evaluators_cacheStep {setting : Setting} (quiet : setting.Quiet) (fuel : Nat) (st : State) :
    (∀ x, st.CacheStep false (((evaluators fuel).expr x).after setting st)) ∧
    (∀ s : Stmt, st.CacheStep s.switches (((evaluators fuel).stmt s).after setting st)) ∧
    ∀ policy program,
      st.CacheStep (Stmt.anySwitches program) ((runTop (evaluators fuel) policy program).after setting st) := by
  have agrees := CacheSafe.evaluators_agree quiet fuel
  have strict (h : Halt) : ¬(cacheSafe setting).Excuses h := id
  refine ⟨fun x => ?_, fun s => ?_, fun policy program => ?_⟩
  · exact ((agrees.expr () false x trivial).after strict trivial).1
  · exact ((Discipline.runs_iff.1 (agrees.stmt () s.switches s id)).after strict trivial).1
  · have does (s : Stmt) (member : s ∈ program) : (CacheSafe.code setting).Does (Stmt.anySwitches program) s :=
      Stmt.anySwitches_of_mem member
    have leads := CacheSafe.lawful.program (w := ()) CacheSafe.contains agrees (fun _ _ _ => trivial) policy
      (Discipline.body_of_all does)
    exact (leads.after strict trivial).1

end ScriptKernel
