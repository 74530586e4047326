import ScriptKernel.Proofs.Machine.OperationResults
import ScriptKernel.Proofs.Machine.PureStates

/-!
The steps of the machine in two runs. Each leads from related states to related
states, and the values it hands on are scalars. So do the constructs of code
without declarations, for any two evaluators of their parts that agree.
-/

namespace ScriptKernel

def Control.Scalar : Control → Prop
  | .returning v => v.Scalar
  | _ => True

variable {α : Type} {mode : Comparison} {setting : Setting} {functions : List String}
  {site site' : Site} {P : α → Prop}

abbrev Leads (mode : Comparison) (setting : Setting) (functions : List String) (site site' : Site)
    (P : α → Prop) (run run' : Run α) : Prop :=
  Matched mode setting (Related mode setting functions site) P (Related mode setting functions site')
    run run'

namespace Leads

theorem forget {s : Stmt} {run run' : Run α}
    (leads : Leads mode setting functions site (site.behind s) P run run') :
    Leads mode setting functions site site P run run' :=
  leads.mono (fun _ => id) fun _ _ => Related.forget

theorem fault (f : RuntimeFault) :
    Leads mode setting functions site site' P (Run.fault f) (Run.fault f) := by
  intro st st' related
  cases mode with
  | apart => exact Or.inr (Or.inl rfl)
  | lockstep => exact Or.inr (Or.inr ⟨rfl, (related.ground.exact rfl).2.1⟩)

theorem lift {result : Except RuntimeFault α} (property : ∀ a, result = .ok a → P a) :
    Leads mode setting functions site site P (Run.lift result) (Run.lift result) := by
  cases result with
  | ok a => exact fun st st' related => ⟨rfl, property a rfl, related⟩
  | error f => exact fault f

theorem read {f : Heap → Except RuntimeFault α} (property : ∀ heap a, f heap = .ok a → P a) :
    Leads mode setting functions site site P (Run.read f) (Run.read f) := by
  intro st st' related
  unfold Run.read
  rw [related.ground.heap]
  exact lift (property st.heap) st st' related

theorem truth (v : Value) :
    Leads mode setting functions site site (fun _ => True) (Run.truth v) (Run.truth v) :=
  fun st st' related => lift (fun _ _ => trivial) st st' related

theorem empty (pure : setting.Pure functions) :
    Leads mode setting functions site site Value.Scalar (do return (← MonadReader.read).empty)
      (do return (← MonadReader.read).empty) :=
  Matched.read_bind (.pure pure.empty)

theorem lookup {name : String} (sees : site.outlook.sees functions name) :
    Leads mode setting functions site site Value.Scalar (Run.lookup name) (Run.lookup name) := by
  intro st st' related
  obtain ⟨same, scalar⟩ := related.find? sees
  unfold Run.lookup
  rw [same]
  cases found : st.scopes.find? name with
  | some v => exact ⟨rfl, scalar v found, related⟩
  | none => exact fault (.undefined name) st st' related

theorem lookup_function {name : String} (function : name ∈ functions) :
    Leads mode setting functions site site setting.Declares (Run.lookup name) (Run.lookup name) := by
  intro st st' related
  unfold Run.lookup
  cases found : st.scopes.find? name with
  | some v =>
    obtain ⟨declares, found'⟩ := related.ground.bound name function v found
    rw [found']
    exact ⟨rfl, declares, related⟩
  | none =>
    cases mode with
    | apart => exact .of_failed rfl
    | lockstep =>
      rw [(related.ground.exact rfl).2.2 name function found]
      exact fault (.undefined name) st st' related

theorem define {name : String} {v : Value} (plain : name ∉ functions) (scalar : v.Scalar) (x : Expr) :
    Leads mode setting functions site (site.behind (.define name x)) (fun _ => True)
      (Run.scopes (Scopes.set name v)) (Run.scopes (Scopes.set name v)) :=
  fun _ _ related => ⟨rfl, trivial, related.set plain scalar x⟩

theorem assign {name : String} {v : Value} (sees : site.outlook.sees functions name) (scalar : v.Scalar) :
    Leads mode setting functions site site (fun _ => True) (Run.assign name v) (Run.assign name v) := by
  intro st st' related
  unfold Run.assign
  rcases related.assign sees scalar with ⟨absent, absent'⟩ | ⟨t, t', found, found', after⟩
  · rw [absent, absent']
    exact fault (.undefined name) st st' related
  · rw [found, found']
    exact ⟨rfl, trivial, after⟩

theorem inScope {part part' : Run α}
    (inside : Leads mode setting functions site.enter site.enter P part part') :
    Leads mode setting functions site site P (Run.inScope id part) (Run.inScope id part') := by
  intro st st' related
  have agree := inside _ _ related.enter
  simp only [Run.inScope, id]
  cases ran : part setting { st with scopes := st.scopes.push } with
  | ok a last =>
    cases ran' : part' setting { st' with scopes := st'.scopes.push } with
    | ok b last' =>
      rw [ran, ran'] at agree
      exact ⟨agree.1, agree.2.1, related.leave agree.2.2⟩
    | error h last' =>
      rw [ran, ran'] at agree
      exact agree
  | error h last =>
    cases ran' : part' setting { st' with scopes := st'.scopes.push } with
    | ok b last' =>
      rw [ran, ran'] at agree
      exact agree
    | error h' last' =>
      rw [ran, ran'] at agree
      exact agree

theorem perform (pure : setting.Pure functions) {declared : List String} {known : List (List String)}
    (capability : Capability) (args : List Value) :
    Leads mode setting functions (.top declared known) (.top declared known) (fun _ => True)
      (Run.perform capability args) (Run.perform capability args) := by
  intro st st' related
  cases related with
  | @top _ _ _ memo level uncached cached =>
    have spared := pure.host capability st.heap args st.console.called
    cases asked : setting.host capability st.heap args st.console.called with
    | mk after result =>
      obtain ⟨heap, console⟩ := after
      rw [asked] at spared
      obtain rfl : heap = st.heap := spared
      have asked' : setting.host capability { st with memo := memo }.heap args { st with memo := memo }.console.called =
          ((st.heap, console), result) := asked
      rw [Run.perform_of_asked asked, Run.perform_of_asked asked']
      have after : Related mode setting functions (.top declared known) { st with console := console }
          { st with console := console, memo := memo } :=
        .atTop { st with console := console } memo level uncached (cached.extend (.of_eq rfl rfl) rfl)
      exact lift (fun _ _ => trivial) _ _ after

end Leads

namespace Evaluators

variable {ev ev' : Evaluators}

/-- Two evaluators that agree on confined code. The name of a function is
evaluated only to be called, and the host is called at top level only. -/
structure Agrees (mode : Comparison) (setting : Setting) (functions : List String)
    (ev ev' : Evaluators) : Prop where
  expr : ∀ (site : Site) x, x.confined functions site.outlook →
    Leads mode setting functions site site Value.Scalar (ev.expr x) (ev'.expr x)
  callee : ∀ (site : Site) name, name ∈ functions →
    Leads mode setting functions site site setting.Declares (ev.expr (.var name)) (ev'.expr (.var name))
  host : ∀ declared known selector keys args, Expr.allConfined functions .top args →
    Leads mode setting functions (.top declared known) (.top declared known) (fun _ => True)
      (ev.expr (.hostCall selector keys args)) (ev'.expr (.hostCall selector keys args))
  stmt : ∀ (site : Site) s, s.confined functions site.outlook →
    Leads mode setting functions site (site.behind s) Control.Scalar (ev.stmt s) (ev'.stmt s)

theorem all_leads (agrees : Agrees mode setting functions ev ev') (site : Site) {xs : List Expr}
    (confined : Expr.allConfined functions site.outlook xs) :
    Leads mode setting functions site site (fun vs => ∀ v ∈ vs, v.Scalar) (ev.all xs) (ev'.all xs) := by
  induction xs with
  | nil => exact .pure nofun
  | cons x xs ih =>
    simp only [Expr.allConfined, Bool.and_eq_true] at confined
    refine (agrees.expr site x confined.1).bind fun v scalar => (ih confined.2).bind fun vs scalars => ?_
    exact .pure (List.forall_mem_cons.2 ⟨scalar, scalars⟩)

theorem sequence_leads (agrees : Agrees mode setting functions ev ev') {body : List Stmt}
    (confined : Stmt.allConfined functions site.outlook body) :
    Leads mode setting functions site site Control.Scalar (ev.sequence body) (ev'.sequence body) := by
  induction body generalizing site with
  | nil => exact .pure trivial
  | cons s rest ih =>
    simp only [Stmt.allConfined, Bool.and_eq_true, ← Site.outlook_behind] at confined
    refine Leads.forget (s := s) ((agrees.stmt site s confined.1).bind fun c scalar => ?_)
    cases c with
    | normal => exact ih confined.2
    | breaking => exact .pure trivial
    | continuing => exact .pure trivial
    | returning v => exact .pure scalar

theorem block_leads (agrees : Agrees mode setting functions ev ev') {body : List Stmt}
    (confined : Stmt.allConfined functions site.outlook body) :
    Leads mode setting functions site site Control.Scalar (ev.block body) (ev'.block body) :=
  .inScope (sequence_leads agrees (site.outlook_enter ▸ confined))

theorem round_leads {round round' next next' : Run Control}
    (first : Leads mode setting functions site site Control.Scalar round round')
    (more : Leads mode setting functions site site Control.Scalar next next') :
    Leads mode setting functions site site Control.Scalar
      (do match ← round with
        | .breaking => return .normal
        | .returning v => return .returning v
        | _ => next)
      (do match ← round' with
        | .breaking => return .normal
        | .returning v => return .returning v
        | _ => next') := by
  refine first.bind fun c scalar => ?_
  cases c with
  | normal => exact more
  | breaking => exact .pure trivial
  | continuing => exact more
  | returning v => exact .pure scalar

/-- Compared by values, the second run may have any fuel. -/
def Fueled (mode : Comparison) (fuel fuel' : Nat) : Prop :=
  mode = .apart ∨ fuel ≤ fuel'

theorem fueled_leads {α : Type} {P : α → Prop} {loop loop' : Nat → Run α}
    (empty : ∀ st, loop 0 setting st = .error .outOfFuel st)
    (empty' : ∀ st, loop' 0 setting st = .error .outOfFuel st)
    (round : ∀ fuel fuel', Leads mode setting functions site site P (loop fuel) (loop' fuel') →
      Leads mode setting functions site site P (loop (fuel + 1)) (loop' (fuel' + 1)))
    {fuel fuel' : Nat} (fueled : Fueled mode fuel fuel') :
    Leads mode setting functions site site P (loop fuel) (loop' fuel') := by
  induction fuel generalizing fuel' with
  | zero =>
    intro st st' related
    rw [empty]
    exact .of_exhausted trivial
  | succ fuel ih =>
    cases fuel' with
    | zero =>
      intro st st' related
      rw [empty']
      exact .of_exhausted_second (fueled.resolve_right (Nat.not_succ_le_zero fuel)) trivial
    | succ fuel' => exact round fuel fuel' (ih (fueled.imp_right Nat.le_of_succ_le_succ))

theorem whileLoop_leads (agrees : Agrees mode setting functions ev ev') {test : Expr} {wanted : Bool}
    {body : List Stmt} (tested : test.confined functions site.outlook)
    (confined : Stmt.allConfined functions site.outlook body) {fuel fuel' : Nat}
    (fueled : Fueled mode fuel fuel') :
    Leads mode setting functions site site Control.Scalar (ev.whileLoop test wanted body fuel)
      (ev'.whileLoop test wanted body fuel') := by
  refine fueled_leads (fun _ => rfl) (fun _ => rfl) (fun fuel fuel' more => ?_) fueled
  refine (agrees.expr site test tested).bind fun v _ => (Leads.truth v).bind fun holds _ => ?_
  cases holds != wanted with
  | true => exact .pure trivial
  | false => exact round_leads (block_leads agrees confined) more

theorem endless_leads (agrees : Agrees mode setting functions ev ev') {body : List Stmt}
    (confined : Stmt.allConfined functions site.outlook body) {fuel fuel' : Nat}
    (fueled : Fueled mode fuel fuel') :
    Leads mode setting functions site site Control.Scalar (ev.endless body fuel)
      (ev'.endless body fuel') := by
  refine fueled_leads (fun _ => rfl) (fun _ => rfl) (fun fuel fuel' more => ?_) fueled
  exact round_leads (block_leads agrees confined) more

theorem confined_expr {x : Expr} {view : Outlook} (confined : (Stmt.expr x).confined functions view) :
    x.confined functions view ∨ (view = .top ∧ ∃ selector keys args,
      x = .hostCall selector keys args ∧ Expr.allConfined functions .top args) := by
  cases x with
  | hostCall selector keys args =>
    simp only [Stmt.confined, Bool.and_eq_true] at confined
    cases view with
    | top => exact Or.inr ⟨rfl, selector, keys, args, rfl, confined.2⟩
    | body known => cases confined.1
  | _ => exact Or.inl confined

theorem body_leads (agrees : Agrees mode setting functions ev ev') (pure : setting.Pure functions)
    (site : Site) (name : String) {body : List Stmt} (inside : site.outlook ≠ .top)
    (confined : Stmt.allConfined functions site.outlook body) :
    Leads mode setting functions site site Value.Scalar (ev.body name body) (ev'.body name body) := by
  induction body generalizing site with
  | nil => exact Leads.empty pure
  | cons s rest ih =>
    simp only [Stmt.allConfined, Bool.and_eq_true, ← Site.outlook_behind] at confined
    by_cases last : ∃ x, s = .expr x ∧ rest = []
    · obtain ⟨x, rfl, rfl⟩ := last
      exact agrees.expr site x ((confined_expr confined.1).resolve_right fun top => inside top.1)
    · have unfinished (x : Expr) (same : s = .expr x) (alone : rest = []) : False :=
        last ⟨x, same, alone⟩
      rw [Evaluators.body.eq_3 ev name s rest unfinished, Evaluators.body.eq_3 ev' name s rest unfinished]
      refine Leads.forget (s := s) ((agrees.stmt site s confined.1).bind fun c scalar => ?_)
      cases c with
      | normal =>
        refine ih (site.behind s) ?_ confined.2
        cases site with
        | top => exact absurd rfl inside
        | body => cases s <;> rintro ⟨⟩
      | breaking => exact Leads.fault _
      | continuing => exact Leads.fault _
      | returning v => exact .pure scalar

end Evaluators

end ScriptKernel
