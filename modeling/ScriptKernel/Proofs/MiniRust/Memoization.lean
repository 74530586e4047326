import ScriptKernel.Proofs.Machine.CacheSharing
import ScriptKernel.Proofs.Machine.PureCalls
import ScriptKernel.Proofs.Session.Loading

/-!
Keeping results of pure functions is invisible. A MiniRust program whose
functions are pure has the same outcome and the same output with the cache as
without it.
-/

namespace ScriptKernel

variable {functions : List String}

theorem Stmt.confined_of_all {view : Outlook} {body : List Stmt} (confined : Stmt.allConfined functions view body) :
    ∀ s ∈ body, ∃ view, s.confined functions view := by
  induction body generalizing view with
  | nil => nofun
  | cons s rest ih =>
    simp only [Stmt.allConfined, Bool.and_eq_true] at confined
    exact List.forall_mem_cons.2 ⟨⟨view, confined.1⟩, ih confined.2⟩

theorem Stmt.confined_parts (s : Stmt) : (∃ view, s.confined functions view) →
    ∀ part ∈ s.parts, ∃ view, part.confined functions view := by
  rintro ⟨view, confined⟩
  cases s with
  | block body => exact confined_of_all confined
  | endless body => exact confined_of_all confined
  | whileLoop test body negated =>
    simp only [Stmt.confined, Bool.and_eq_true] at confined
    exact confined_of_all confined.2
  | cond test yes no =>
    simp only [Stmt.confined, Bool.and_eq_true] at confined
    exact List.forall_mem_append.2 ⟨confined_of_all confined.1.2, confined_of_all confined.2⟩
  | forEach | declare => cases confined
  | _ => exact List.forall_mem_nil _

theorem Stmt.linksAlone_confined {s : Stmt} (confined : s.confinedTop functions) : s.LinksAlone := by
  have declares (label : Nat) (name : String) (params : List String) (body : List Stmt) :
      ¬∃ view, (Stmt.declare label name params body).confined functions view := fun ⟨_, confined⟩ => nomatch confined
  cases s with
  | declare label name params body =>
    simp only [Stmt.confinedTop, Function.confined, Bool.and_eq_true] at confined
    exact fun code => linkAll_of_closed declares confined_parts body code (confined_of_all confined.2)
  | _ => exact fun code => link_of_closed declares confined_parts _ code ⟨.top, confined⟩

/-- What is related while the statements of the program itself run. -/
abbrev AtTop (setting : Setting) (functions declared : List String) : State → State → Prop :=
  Related .lockstep setting functions (.top declared [])

variable {setting : Setting} {declared : List String}

theorem declare_matched {label : Nat} {f : Function} (known : setting.code[label]? = some f)
    (function : f.name ∈ functions) (new : f.name ∉ declared) (fuel : Nat) :
    Matched .lockstep setting (AtTop setting functions declared) (· = .normal)
      (AtTop setting functions (f.name :: declared))
      ((evaluators fuel).stmt (.declare label f.name f.params f.body))
      ((evaluators fuel).stmt (.declare label f.name f.params f.body)) := by
  cases fuel with
  | zero => exact .halt trivial
  | succ fuel =>
    refine Matched.bind (P := fun _ => True) ?_ fun _ _ => .pure rfl
    intro st st' related
    refine ⟨rfl, trivial, ?_⟩
    cases related with
    | @top _ _ _ memo level uncached cached =>
      obtain ⟨⟨inner, globals⟩, heap, first, calls, console⟩ := st
      cases level.inner
      have declares : setting.Declares (.function label f.name f.params.length) :=
        ⟨label, f.name, f.params.length, f, rfl, known⟩
      refine .atTop ⟨⟨[], Scope.set f.name _ globals⟩, heap, first, calls, console⟩ memo ⟨.nil, ?_⟩
        uncached (cached.extend ⟨rfl, ?_⟩ rfl)
      · intro name v member
        rcases Scope.mem_set member with same | old
        · cases same
          exact Or.inl ⟨function, List.mem_cons_self, declares⟩
        · exact (level.globals name v old).imp_left
            fun here => ⟨here.1, List.mem_cons_of_mem _ here.2.1, here.2.2⟩
      · intro name named v found
        have other : name ≠ f.name :=
          ne_of_mem_of_not_mem (level.declares_of_find? found named).1 new
        exact (Scope.find?_set_ne other _ globals).trans found

theorem stmt_matched (pure : setting.Pure functions) {s : Stmt} (confined : s.confined functions .top)
    (fuel : Nat) :
    Matched .lockstep setting (AtTop setting functions declared) Control.Scalar
      (AtTop setting functions declared) ((evaluators fuel).stmt s) ((evaluators fuel).stmt s) :=
  Leads.forget (s := s)
    ((Evaluators.evaluators_lockstep pure fuel).stmt (.top declared []) s confined)

def SameOutput (st st' : State) : Prop :=
  st'.console = st.console

theorem sameOutput {run run' : Run Value}
    (leads : Leads .lockstep setting functions (.top declared []) (.top declared []) Value.Scalar run run') :
    Matched .lockstep setting (AtTop setting functions declared) Value.Scalar SameOutput run run' :=
  leads.mono (fun _ => id) fun _ _ related => (related.ground.exact rfl).2.1

theorem runTop_matched (pure : setting.Pure functions) (policy : StrayPolicy) (fuel : Nat)
    {source program : List Stmt} (confined : ∀ s ∈ source, s.confinedTop functions)
    (loaded : ∀ s ∈ program, s.Loaded source setting.code)
    (distinct : ((declaredFunctions program).map (·.name)).Nodup)
    (known : ∀ f ∈ declaredFunctions program, f.name ∈ functions ∧ f.name ∉ declared) :
    Matched .lockstep setting (AtTop setting functions declared) Value.Scalar SameOutput
      (runTop (evaluators fuel) policy program) (runTop (evaluators fuel) policy program) := by
  induction program generalizing declared with
  | nil => exact sameOutput (.empty pure)
  | cons s rest ih =>
    rw [List.forall_mem_cons] at loaded
    by_cases declares : ∃ label name params body, s = .declare label name params body
    · obtain ⟨label, name, params, body, rfl⟩ := declares
      simp only [declaredFunctions, List.filterMap_cons, List.map_cons, List.nodup_cons,
        List.forall_mem_cons] at distinct known
      refine (declare_matched loaded.1 known.1.1 known.1.2 fuel).bind ?_
      rintro _ rfl
      refine ih loaded.2 distinct.2 fun f member => ⟨(known.2 f member).1, ?_⟩
      refine List.not_mem_cons_of_ne_of_not_mem (fun same => distinct.1 ?_) (known.2 f member).2
      exact List.mem_map.2 ⟨f, member, same⟩
    · have inside : s.confined functions .top := by
        cases s with
        | declare label name params body => exact absurd ⟨label, name, params, body, rfl⟩ declares
        | _ => exact confined _ loaded.1
      rw [declaredFunctions_cons_other declares] at distinct known
      have later := ih loaded.2 distinct known
      refine (stmt_matched pure inside fuel).bind fun c scalar => ?_
      cases c with
      | normal => exact later
      | returning v => exact sameOutput (.pure scalar)
      | breaking | continuing =>
        cases policy with
        | reject => exact sameOutput (.fault _)
        | ignore => exact later

theorem pure_loaded {program : List Stmt} (confined : ∀ s ∈ program, s.confinedTop functions)
    (code : setting.code = (linkAll program #[]).2) (empty : setting.empty = .unit) (host : setting.host.Spares) :
    setting.Pure functions := by
  refine ⟨fun label f known => ?_, empty ▸ .unit, host⟩
  rw [code] at known
  have listed := mem_declaredFunctions (fun s member => Stmt.linksAlone_confined (confined s member)) known
  obtain ⟨_, member⟩ := declares_of_mem (List.mem_of_getElem? listed)
  exact confined _ member

theorem start_related {st : State} (scopes : st.scopes = {}) :
    AtTop setting functions [] { st with memo := some (({} : Memo).enable false) }
      { st with memo := some (({} : Memo).enable true) } := by
  refine .atTop { st with memo := some (({} : Memo).enable false) } _ ?_ ?_ ?_
  · simp only [scopes]
    exact ⟨.nil, nofun⟩
  · rintro memo ⟨⟩
    rfl
  · rintro memo ⟨⟩ _ label f args v _ _ _ found
    simp [Memo.find?, Memo.enable] at found

namespace Doubled

def double : Function :=
  ⟨"double", ["n"], [.expr (.intBinary .add (.var "n") (.var "n"))]⟩

def call : Expr :=
  .call (.var "double") [.literal (.int 3)]

def twice : List Stmt :=
  [.declare 0 double.name double.params double.body, .returnWith (some (.intBinary .add call call))]

def rust : Setting :=
  { (⟨Language.minirust, {}⟩ : Session).machine.setting with code := #[double] }

def knowing (memo : Memo) : State where
  scopes := Scopes.set "double" (.function 0 "double" 1) {}
  memo := some memo

def fresh : Memo :=
  ({} : Memo).enable true

def key : String :=
  Memo.key {} [.int 3]

def kept : Memo :=
  fresh.store 0 key (.int 6)

theorem call_first (spare : Nat) : (evaluators (spare + 4)).expr call rust (knowing fresh) =
    .ok (.int 6) (knowing kept) := by
  have new : fresh.find? 0 key = none := by simp [fresh, Memo.find?, Memo.enable]
  have ran : (evaluators (spare + 3)).activate double [.int 3] rust (knowing fresh) =
      .ok (.int 6) (knowing fresh) := rfl
  have shallow : ¬(0 < rust.maxCalls ∧ rust.maxCalls ≤ (knowing fresh).calls) := by decide
  exact Evaluators.callFunction_keeps rfl shallow rfl rfl new ran

theorem call_again (spare : Nat) : (evaluators (spare + 4)).expr call rust (knowing kept) =
    .ok (.int 6) (knowing kept.hit) := by
  have still : (knowing kept).Keeps 0 key (.int 6) := by
    refine ⟨kept, rfl, rfl, ?_⟩
    rw [kept, Memo.find?_store, if_pos rfl]
  have length : [Value.int 3].length = double.params.length := rfl
  have shallow : ¬(0 < rust.maxCalls ∧ rust.maxCalls ≤ (knowing kept).calls) := by decide
  exact Evaluators.callFunction_kept still length shallow

theorem runTop_twice {spare : Nat} {st : State}
    (declare : (evaluators (spare + 6)).stmt (.declare 0 double.name double.params double.body) rust st =
      .ok .normal (knowing fresh)) :
    runTop (evaluators (spare + 6)) .reject twice rust st = .ok (.int 12) (knowing kept.hit) := by
  have sum : (evaluators (spare + 5)).expr (.intBinary .add call call) rust (knowing fresh) =
      .ok (.int 12) (knowing kept.hit) :=
    (Run.bind_ok _ (call_first spare)).trans (Run.bind_ok _ (call_again spare))
  have returned : (evaluators (spare + 6)).stmt (.returnWith (some (.intBinary .add call call))) rust
      (knowing fresh) = .ok (.returning (.int 12)) (knowing kept.hit) := Run.bind_ok _ sum
  rw [twice, runTop_normal declare]
  exact Run.bind_ok _ returned

end Doubled

/-- The cache does not show. Where a program whose functions are pure ends
without it, the program has the same outcome and the same output with it, on a
host that leaves the arrays alone. -/
theorem memoization_transparent {s : Session} (rust : s.language = Language.minirust) (host : s.options.host.Spares)
    {program : List Stmt} (pure : purelyDeclared program)
    (ended : Ended ((s.memoizing false).exec (s.memoizing false).machine program).1) :
    let off := (s.memoizing false).exec (s.memoizing false).machine program
    let on := (s.memoizing true).exec (s.memoizing true).machine program
    on.1 = off.1 ∧ on.2.console = off.2.console := by
  simp only [Session.exec_eq] at ended ⊢
  simp only [purelyDeclared, Bool.and_eq_true, decide_eq_true_eq, List.all_eq_true] at pure
  obtain ⟨distinct, confined⟩ := pure
  obtain ⟨-, same, loaded⟩ := linkAll_program (fun s member => Stmt.linksAlone_confined (confined s member)) #[]
  let setting := { s.machine.setting with code := (linkAll program #[]).2 }
  have library : setting.Pure ((declaredFunctions program).map (·.name)) := by
    refine pure_loaded confined rfl ?_ host
    change s.language.dialect.empty = .unit
    rw [rust]
    rfl
  have globals : s.machine.state.scopes = {} := by
    change { globals := s.language.globals } = ({} : Scopes)
    rw [rust]
    rfl
  have known : ∀ f ∈ declaredFunctions (linkAll program #[]).1,
      f.name ∈ (declaredFunctions program).map (·.name) ∧ f.name ∉ [] :=
    fun f member => ⟨List.mem_map_of_mem (same ▸ member), nofun⟩
  have agree := runTop_matched library s.language.policy Session.fuel confined loaded (same ▸ distinct) known _ _
    (start_related globals)
  have concur : Concur .lockstep (fun v last w last' => v = w ∧ last'.console = last.console)
      (s.runLoaded (evaluators Session.fuel) program false) (s.runLoaded (evaluators Session.fuel) program true) :=
    Concur.mono agree fun _ _ _ _ ends => ⟨ends.1, ends.2.2⟩
  exact (execUnder_concurs concur ended).imp_left SameUpTo.eq

open Doubled in
theorem memoization_transparent_double :
    let s : Session := ⟨Language.minirust, {}⟩
    let off := (s.memoizing false).exec (s.memoizing false).machine twice
    let on := (s.memoizing true).exec (s.memoizing true).machine twice
    purelyDeclared twice ∧ off.1 = .ok (.int 12) ∧ Ended off.1 ∧
      on.2.state.memo.map (·.hits) = some 1 ∧ on.1 = off.1 ∧ on.2.console = off.2.console := by
  intro s off on
  have host : s.options.host.Spares := (Host.usual_modest s.options.clock).heap
  have pure : purelyDeclared twice := by decide
  have value : off.1 = .ok (.int 12) := by rfl
  have ended : Ended off.1 := by
    intro h failed
    rw [value] at failed
    cases failed
  have load : (s.memoizing true).machine.load twice =
      (twice, { (s.memoizing true).machine with setting := rust }) := rfl
  have ran (spare : Nat) : runTop (evaluators (spare + 6)) .reject twice rust
      (s.memoizing true).machine.state = .ok (.int 12) (knowing kept.hit) := runTop_twice rfl
  have hit : on.2.state.memo.map (·.hits) = some 1 := by
    simp only [on, Session.exec_ok (s := s.memoizing true) load 6 (by decide) ran]
    rfl
  exact ⟨pure, value, ended, hit, memoization_transparent rfl host pure ended⟩

end ScriptKernel
