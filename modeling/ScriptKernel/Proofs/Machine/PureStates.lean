import ScriptKernel.Proofs.Machine.Confined
import ScriptKernel.Proofs.Machine.Hosts
import ScriptKernel.Proofs.Machine.OwnScopes
import ScriptKernel.Proofs.Machine.TwoRuns

/-!
States of two runs that go through the same code, where the first keeps no
results and the second may. Top-level code runs from states that differ in
their caches only. The body of a function runs on scopes of its own, on top of
callers that need to agree only on the functions declared so far.
-/

namespace ScriptKernel

def Setting.Declares (setting : Setting) (v : Value) : Prop :=
  ∃ label name arity f, v = .function label name arity ∧ setting.code[label]? = some f

structure Setting.Pure (setting : Setting) (functions : List String) : Prop where
  code : ∀ (label : Nat) f, setting.code[label]? = some f → f.confined functions = true
  empty : setting.empty.Scalar
  host : setting.host.Spares

def State.Uncached (st : State) : Prop :=
  ∀ memo, st.memo = some memo → memo.enabled = false

/-- Every function that is bound in the first state is bound in the second. -/
structure State.Extends (functions : List String) (st st' : State) : Prop where
  heap : st'.heap = st.heap
  bound : ∀ name ∈ functions, ∀ v, st.scopes.find? name = some v → st'.scopes.find? name = some v

theorem State.Extends.of_eq {functions : List String} {st st' : State} (heap : st'.heap = st.heap)
    (scopes : st'.scopes = st.scopes) : st.Extends functions st' :=
  ⟨heap, fun name _ v found => by rw [scopes, found]⟩

theorem State.Extends.trans {functions : List String} {st mid last : State}
    (first : st.Extends functions mid) (second : mid.Extends functions last) :
    st.Extends functions last :=
  ⟨second.heap.trans first.heap, fun name function v found =>
    second.bound name function v (first.bound name function v found)⟩

/-- Wherever at least the functions of the state are bound, and with any fuel,
a run that keeps no results finds this value for the call, or is exhausted. -/
def State.Settles (setting : Setting) (functions : List String) (st : State) (f : Function)
    (args : List Value) (v : Value) : Prop :=
  ∀ fuel other, st.Extends functions other → other.Uncached →
    match (evaluators fuel).activate f args setting other with
    | .ok w _ => w = v
    | .error h _ => h.IsExhaustion

theorem State.Settles.extend {setting : Setting} {functions : List String} {st other : State}
    {f : Function} {args : List Value} {v : Value} (settles : st.Settles setting functions f args v)
    (wider : st.Extends functions other) : other.Settles setting functions f args v :=
  fun fuel last further => settles fuel last (wider.trans further)

/-- Every result that is kept is what the function gives for the arguments. -/
def State.Sound (setting : Setting) (functions : List String) (st : State) : Prop :=
  ∀ memo, st.memo = some memo → memo.enabled = true →
    ∀ (label : Nat) f args v, setting.code[label]? = some f → (∀ a ∈ args, a.Scalar) →
      args.length = f.params.length → memo.find? label (Memo.key st.heap args) = some v →
        v.Scalar ∧ st.Settles setting functions f args v

theorem State.Sound.extend {setting : Setting} {functions : List String} {st other : State}
    (sound : st.Sound setting functions) (wider : st.Extends functions other)
    (memo : other.memo = st.memo) : other.Sound setting functions := by
  intro cache cached enabled label f args v known scalars length found
  rw [wider.heap] at found
  obtain ⟨scalar, settles⟩ :=
    sound cache (memo ▸ cached) enabled label f args v known scalars length found
  exact ⟨scalar, settles.extend wider⟩

def Comparison.Cached (setting : Setting) (functions : List String) : Comparison → State → Prop
  | .lockstep, st => st.Sound setting functions
  | .apart, st => st.Uncached

theorem Comparison.Cached.extend {mode : Comparison} {setting : Setting} {functions : List String}
    {st other : State} (cached : mode.Cached setting functions st)
    (wider : st.Extends functions other) (memo : other.memo = st.memo) :
    mode.Cached setting functions other := by
  cases mode with
  | lockstep => exact State.Sound.extend cached wider memo
  | apart => exact fun cache found => cached cache (memo ▸ found)

structure Ground (mode : Comparison) (setting : Setting) (functions : List String)
    (st st' : State) : Prop where
  heap : st'.heap = st.heap
  uncached : st.Uncached
  bound : ∀ name ∈ functions, ∀ v, st.scopes.find? name = some v →
    setting.Declares v ∧ st'.scopes.find? name = some v
  exact : mode = .lockstep → st'.calls = st.calls ∧ st'.console = st.console ∧
    ∀ name ∈ functions, st.scopes.find? name = none → st'.scopes.find? name = none

structure Level (setting : Setting) (functions declared : List String) (known : List (List String))
    (s : Scopes) : Prop where
  inner : OwnScopes functions known s.inner
  globals : ∀ name v, (name, v) ∈ s.globals →
    (name ∈ functions ∧ name ∈ declared ∧ setting.Declares v) ∨ (name ∉ functions ∧ v.Scalar)

inductive Site where
  /-- Top-level code after the declarations of some functions. -/
  | top (declared : List String) (known : List (List String))
  /-- The body of a function that was entered from the given states. -/
  | body (start start' : State) (names : List String) (outer : List (List String))

namespace Site

def outlook : Site → Outlook
  | top _ _ => .top
  | body _ _ names outer => .body (names ++ outer.flatten)

def enter : Site → Site
  | top declared known => top declared ([] :: known)
  | body start start' names outer => body start start' [] (names :: outer)

def knowing (name : String) : Site → Site
  | body start start' names outer => body start start' (name :: names) outer
  | site => site

def behind (site : Site) : Stmt → Site
  | .define name _ => site.knowing name
  | _ => site

theorem outlook_enter (site : Site) : site.enter.outlook = site.outlook := by
  cases site <;> rfl

theorem outlook_behind (site : Site) (s : Stmt) :
    (site.behind s).outlook = site.outlook.behind s := by
  cases site <;> cases s <;> rfl

end Site

inductive Related (mode : Comparison) (setting : Setting) (functions : List String) :
    Site → State → State → Prop
  | top {declared : List String} {known : List (List String)} {st : State} {memo : Option Memo}
      (level : Level setting functions declared known st.scopes) (uncached : st.Uncached)
      (cached : mode.Cached setting functions { st with memo := memo }) :
      Related mode setting functions (.top declared known) st { st with memo := memo }
  | body {start start' : State} {names : List String} {outer : List (List String)}
      {own : List Scope} {memo : Option Memo} (ground : Ground mode setting functions start start')
      (holds : OwnScopes functions (names :: outer) own)
      (cached : mode.Cached setting functions { start' with memo := memo }) :
      Related mode setting functions (.body start start' names outer)
        { start with scopes := start.scopes.topped own }
        { start' with scopes := start'.scopes.topped own, memo := memo }

namespace OwnScopes

variable {functions : List String} {known : List (List String)} {own : List Scope} {name : String}

theorem find?_function (holds : OwnScopes functions known own) (function : name ∈ functions)
    (s : Scopes) : (s.topped own).find? name = s.find? name := by
  simp only [Scopes.find?, Scopes.topped, Scopes.findIn_append, holds.function_unbound function,
    Option.none_or]

theorem find?_own {v : Value} (found : Scopes.findIn name own = some v) (s : Scopes) :
    (s.topped own).find? name = some v := by
  simp only [Scopes.find?, Scopes.topped, Scopes.findIn_append, found, Option.some_or]

theorem assign?_own {v : Value} {rebound : List Scope}
    (located : Scopes.assignIn name v own = some rebound) (s : Scopes) :
    (s.topped own).assign? name v = some (s.topped rebound) := by
  simp only [Scopes.assign?, Scopes.topped, assignIn_append located]

end OwnScopes

namespace Level

variable {setting : Setting} {functions declared : List String} {known : List (List String)}
  {s : Scopes} {name : String} {v : Value}

theorem scalar_of_find? (level : Level setting functions declared known s) (found : s.find? name = some v)
    (plain : name ∉ functions) : v.Scalar := by
  simp only [Scopes.find?] at found
  cases inside : Scopes.findIn name s.inner with
  | some w =>
    rw [inside] at found
    cases found
    exact (level.inner.scalar_of_findIn inside).2
  | none =>
    rw [inside] at found
    exact (level.globals name v (Scope.mem_of_find? found)).elim (fun function => absurd function.1 plain)
      (fun scalar => scalar.2)

theorem declares_of_find? (level : Level setting functions declared known s)
    (found : s.find? name = some v) (function : name ∈ functions) :
    name ∈ declared ∧ setting.Declares v := by
  simp only [Scopes.find?, level.inner.function_unbound function] at found
  exact (level.globals name v (Scope.mem_of_find? found)).elim (fun known => known.2)
    (fun scalar => absurd function scalar.1)

theorem find?_function (level : Level setting functions declared known s) (function : name ∈ functions) :
    s.find? name = Scope.find? name s.globals := by
  simp only [Scopes.find?, level.inner.function_unbound function]

theorem find?_globals_set {other : String} (differ : other ≠ name) (s : Scopes) (v : Value) :
    Scope.find? other (s.set name v).globals = Scope.find? other s.globals := by
  obtain ⟨inner, globals⟩ := s
  cases inner with
  | nil => exact Scope.find?_set_ne differ v globals
  | cons scope outer => rfl

theorem find?_globals_assign {other : String} {t : Scopes} (differ : other ≠ name)
    (found : s.assign? name v = some t) : Scope.find? other t.globals = Scope.find? other s.globals := by
  simp only [Scopes.assign?] at found
  split at found
  · cases found
    rfl
  · split at found
    · cases found
      exact Scope.find?_set_ne differ v s.globals
    · cases found

theorem enter (level : Level setting functions declared known s) :
    Level setting functions declared ([] :: known) s.push :=
  ⟨level.inner.enter, level.globals⟩

theorem set_globals (level : Level setting functions declared known s) (plain : name ∉ functions)
    (scalar : v.Scalar) (other : String) (w : Value) (member : (other, w) ∈ Scope.set name v s.globals) :
    (other ∈ functions ∧ other ∈ declared ∧ setting.Declares w) ∨ (other ∉ functions ∧ w.Scalar) := by
  rcases Scope.mem_set member with same | old
  · cases same
    exact Or.inr ⟨plain, scalar⟩
  · exact level.globals other w old

theorem set (level : Level setting functions declared known s) (plain : name ∉ functions)
    (scalar : v.Scalar) : Level setting functions declared known (s.set name v) := by
  obtain ⟨inner, globals⟩ := s
  cases inner with
  | nil => exact ⟨level.inner, level.set_globals plain scalar⟩
  | cons scope outer =>
    cases level.inner with
    | cons first rest =>
      exact ⟨.cons ((first.set plain scalar).mono (List.subset_cons_self _ _)) rest, level.globals⟩

theorem assign {t : Scopes} (level : Level setting functions declared known s)
    (plain : name ∉ functions) (scalar : v.Scalar) (found : s.assign? name v = some t) :
    Level setting functions declared known t := by
  simp only [Scopes.assign?] at found
  split at found
  · next inner located =>
    cases found
    exact ⟨level.inner.assignIn_holds plain scalar located, level.globals⟩
  · split at found
    · cases found
      exact ⟨level.inner, level.set_globals plain scalar⟩
    · cases found

end Level

namespace Related

variable {mode : Comparison} {setting : Setting} {functions : List String} {site : Site}
  {st st' : State}

theorem cached (related : Related mode setting functions site st st') :
    mode.Cached setting functions st' := by
  cases related with
  | top _ _ cached => exact cached
  | body _ holds cached =>
    exact cached.extend ⟨rfl, fun name function v found => (holds.find?_function function _).trans found⟩ rfl

theorem ground (related : Related mode setting functions site st st') :
    Ground mode setting functions st st' := by
  cases related with
  | top level uncached _ =>
    exact ⟨rfl, uncached, fun name function v found => ⟨(level.declares_of_find? found function).2, found⟩,
      fun _ => ⟨rfl, rfl, fun _ _ absent => absent⟩⟩
  | body ground holds _ =>
    refine ⟨ground.heap, ground.uncached, ?_, fun lockstep => ?_⟩
    · intro name function v found
      simp only [holds.find?_function function] at found ⊢
      exact ground.bound name function v found
    · obtain ⟨calls, console, unbound⟩ := ground.exact lockstep
      refine ⟨calls, console, ?_⟩
      intro name function absent
      simp only [holds.find?_function function] at absent ⊢
      exact unbound name function absent

theorem returned (related : Related mode setting functions site st st') {memo : Option Memo}
    (cached : mode.Cached setting functions { st' with memo := memo }) :
    Related mode setting functions site st { st' with memo := memo } := by
  cases related with
  | top level uncached _ => exact .top level uncached cached
  | body ground holds _ =>
    exact .body ground holds (cached.extend
      ⟨rfl, fun name function v found => (holds.find?_function function _).symm.trans found⟩ rfl)

theorem find? {name : String} (related : Related mode setting functions site st st')
    (sees : site.outlook.sees functions name) :
    st'.scopes.find? name = st.scopes.find? name ∧
      ∀ v, st.scopes.find? name = some v → v.Scalar := by
  cases related with
  | top level _ _ =>
    have plain : name ∉ functions := by simpa [Site.outlook, Outlook.sees] using sees
    exact ⟨rfl, fun v found => level.scalar_of_find? found plain⟩
  | @body _ _ names outer _ _ _ holds _ =>
    have member : name ∈ (names :: outer).flatten := by simpa [Site.outlook, Outlook.sees] using sees
    obtain ⟨v, found⟩ := holds.known_bound member
    have scalar := (holds.scalar_of_findIn found).2
    simp only [OwnScopes.find?_own found, true_and]
    rintro w ⟨⟩
    exact scalar

theorem atTop (st : State) (memo : Option Memo) {declared : List String} {known : List (List String)}
    (level : Level setting functions declared known st.scopes) (uncached : st.Uncached)
    (cached : mode.Cached setting functions { st with memo := memo }) :
    Related mode setting functions (.top declared known) st { st with memo := memo } :=
  .top level uncached cached

theorem moved {declared : List String} {known known' : List (List String)} {st : State}
    {memo : Option Memo} {t : Scopes} (level : Level setting functions declared known st.scopes)
    (uncached : st.Uncached) (cached : mode.Cached setting functions { st with memo := memo })
    (other : Level setting functions declared known' t)
    (same : ∀ name ∈ functions, Scope.find? name t.globals = Scope.find? name st.scopes.globals) :
    Related mode setting functions (.top declared known') { st with scopes := t }
      { st with scopes := t, memo := memo } := by
  refine atTop { st with scopes := t } memo other uncached (cached.extend ⟨rfl, ?_⟩ rfl)
  intro name function v found
  exact (other.find?_function function).trans
    ((same name function).trans ((level.find?_function function).symm.trans found))

theorem set {name : String} {v : Value} (related : Related mode setting functions site st st')
    (plain : name ∉ functions) (scalar : v.Scalar) (x : Expr) :
    Related mode setting functions (site.behind (.define name x))
      { st with scopes := st.scopes.set name v } { st' with scopes := st'.scopes.set name v } := by
  cases related with
  | top level uncached cached =>
    refine moved level uncached cached (level.set plain scalar) fun other function => ?_
    exact Level.find?_globals_set (ne_of_mem_of_not_mem function plain) _ v
  | body ground holds cached =>
    cases holds with
    | cons first rest => exact .body ground (.cons (first.set plain scalar) rest) cached

theorem assign {name : String} {v : Value} (related : Related mode setting functions site st st')
    (sees : site.outlook.sees functions name) (scalar : v.Scalar) :
    (st.scopes.assign? name v = none ∧ st'.scopes.assign? name v = none) ∨
      ∃ t t', st.scopes.assign? name v = some t ∧ st'.scopes.assign? name v = some t' ∧
        Related mode setting functions site { st with scopes := t } { st' with scopes := t' } := by
  cases related with
  | @top _ _ st memo level uncached cached =>
    have plain : name ∉ functions := by simpa [Site.outlook, Outlook.sees] using sees
    cases found : st.scopes.assign? name v with
    | none => exact Or.inl ⟨rfl, rfl⟩
    | some t =>
      refine Or.inr ⟨t, t, rfl, rfl, moved level uncached cached (level.assign plain scalar found) ?_⟩
      exact fun other function => Level.find?_globals_assign (ne_of_mem_of_not_mem function plain) found
  | @body _ _ names outer _ _ ground holds cached =>
    have member : name ∈ (names :: outer).flatten := by simpa [Site.outlook, Outlook.sees] using sees
    obtain ⟨w, found⟩ := holds.known_bound member
    obtain ⟨rebound, located⟩ := OwnScopes.assignIn_isSome (v := v) found
    have after := holds.assignIn_holds (holds.scalar_of_findIn found).1 scalar located
    exact Or.inr ⟨_, _, OwnScopes.assign?_own located _, OwnScopes.assign?_own located _,
      .body ground after cached⟩

theorem enter (related : Related mode setting functions site st st') :
    Related mode setting functions site.enter { st with scopes := st.scopes.push }
      { st' with scopes := st'.scopes.push } := by
  cases related with
  | top level uncached cached => exact moved level uncached cached level.enter fun _ _ => rfl
  | body ground holds cached => exact .body ground holds.enter cached

theorem leave {last last' : State} (related : Related mode setting functions site st st')
    (inside : Related mode setting functions site.enter last last') :
    Related mode setting functions site { last with scopes := last.scopes.unwind st.scopes.depth }
      { last' with scopes := last'.scopes.unwind st'.scopes.depth } := by
  cases related with
  | top level _ _ =>
    cases inside with
    | @top _ _ last memo after uncached cached =>
      obtain ⟨⟨inner, globals⟩, heap, cache, calls, console⟩ := last
      cases after.inner with
      | @cons _ scope _ outer first rest =>
        have size : outer.length = st.scopes.inner.length :=
          rest.length_eq.symm.trans level.inner.length_eq
        have unwound : (⟨scope :: outer, globals⟩ : Scopes).unwind st.scopes.depth = ⟨outer, globals⟩ := by
          have depth : st.scopes.depth = (⟨outer, globals⟩ : Scopes).depth := by simp [Scopes.depth, size]
          rw [depth]
          exact Scopes.unwind_topped [scope] ⟨outer, globals⟩
        have below : Level setting functions _ _ ⟨outer, globals⟩ := ⟨rest, after.globals⟩
        simp only [unwound]
        exact moved after uncached cached below fun _ _ => rfl
  | @body start start' names outer own memo ground holds _ =>
    cases inside with
    | body _ within cached =>
      cases within with
      | @cons _ scope _ left first rest =>
        have size : left.length = own.length := rest.length_eq.symm.trans holds.length_eq
        have unwound (s : Scopes) :
            (s.topped (scope :: left)).unwind (s.topped own).depth = s.topped left := by
          have depth : (s.topped own).depth = (s.topped left).depth := by
            simp [Scopes.depth, Scopes.topped, size]
          rw [depth]
          exact Scopes.unwind_topped [scope] (s.topped left)
        simp only [unwound]
        exact .body ground rest cached

theorem forget {s : Stmt} (related : Related mode setting functions (site.behind s) st st') :
    Related mode setting functions site st st' := by
  cases site with
  | top declared known => cases s <;> exact related
  | body start start' names outer =>
    cases s with
    | define name x =>
      cases related with
      | body ground holds cached =>
        cases holds with
        | cons first rest =>
          exact .body ground (.cons (first.mono (List.subset_cons_self name names)) rest) cached
    | _ => exact related

end Related

end ScriptKernel
