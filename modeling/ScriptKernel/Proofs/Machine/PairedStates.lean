import ScriptKernel.Proofs.Lumen.Contained
import ScriptKernel.Proofs.Lumen.PairedOperations
import ScriptKernel.Proofs.Machine.CarefulRuns
import ScriptKernel.Proofs.Machine.PairedScopes
import ScriptKernel.Proofs.Machine.PureStates

/-!
States of two runs over heaps of their own. The first run is careful and keeps
no results, the second one may keep them. Top-level code runs from states whose
values go together. The body of a function runs on scopes of its own, on top of
callers that need to agree only on the functions declared so far, and on arrays
of its own, beside those that were there when it was entered.
-/

namespace ScriptKernel

structure Trial where
  mode : Comparison
  setting : Setting
  functions : List String
  care : Care

namespace Trial

/-- The functions are pure, the host does not tell cells apart, and the care of the
first run is enough for the keys of the cache. -/
structure Fair (t : Trial) : Prop where
  code : ∀ (label : Nat) f, t.setting.code[label]? = some f → f.contained t.functions = true
  empty : ∀ cell, t.setting.empty ≠ .array cell
  host : t.setting.host.Blind
  tells : ToldApart (t.care.tells t.setting · = true)

def Binds (functions : List String) (st other : State) : Prop :=
  ∀ name ∈ functions, ∀ v, st.scopes.find? name = some v → other.scopes.find? name = some v

theorem Binds.trans {functions : List String} {st mid other : State} (first : Binds functions st mid)
    (second : Binds functions mid other) : Binds functions st other :=
  fun name function v found => second name function v (first name function v found)

/-- What a call leaves behind: new arrays, and results in the cache if there is
one. -/
structure Since (st last : State) : Prop where
  heap : st.heap.Framed last.heap
  scopes : last.scopes = st.scopes
  calls : last.calls = st.calls
  console : last.console = st.console
  cache : last.memo.isNone = st.memo.isNone

/-- Wherever at least the functions of the state are bound, and with any fuel,
a run that keeps no results gives a value that shows this tree for the call,
with new arrays only, or is exhausted. -/
def Settles (t : Trial) (st : State) (f : Function) (ts : List Unfolding) (tree : Unfolding) : Prop :=
  ∀ fuel other args, Binds t.functions st other → other.Uncached → other.heap.Forest →
    other.heap.ShowAll args ts →
    match (evaluators fuel).activate f args t.setting other with
    | .ok w last => last.heap.Shows w tree ∧ Since other last ∧ last.Uncached
    | .error h _ => h.IsExhaustion

theorem Settles.extend {t : Trial} {st other : State} {f : Function} {ts : List Unfolding} {tree : Unfolding}
    (settles : t.Settles st f ts tree) (wider : Binds t.functions st other) : t.Settles other f ts tree :=
  fun fuel last args further => settles fuel last args (wider.trans further)

def keyOf (ts : List Unfolding) : String :=
  String.ofList (listing [','] (Unfolding.texts ts))

theorem key_eq {heap : Heap} {args : List Value} {ts : List Unfolding} (shown : heap.ShowAll args ts) :
    Memo.key heap args = keyOf ts := by
  apply String.toList_inj.1
  rw [shown.toList_key, keyOf, String.toList_ofList]

/-- Every result that is kept shows what the function gives for arguments with
the key, and none of the arrays in the set is in it. -/
def Sound (t : Trial) (S : Nat → Prop) (st : State) : Prop :=
  ∀ memo, st.memo = some memo → memo.enabled = true →
    ∀ (label : Nat) f ts v, t.setting.code[label]? = some f →
      Unfolding.All (t.care.tells t.setting · = true) ts → memo.find? label (keyOf ts) = some v →
        ∃ tree, st.heap.Shows v tree ∧ (∀ cell, v = .array cell → ¬S cell) ∧ t.Settles st f ts tree

def Caches (t : Trial) (p : Pairing) (st : State) : Prop :=
  match t.mode with
  | .lockstep => t.Sound p.Right st
  | .apart => st.Uncached

theorem Caches.keep {t : Trial} {p q : Pairing} {st other : State} (caches : t.Caches p st)
    (memo : other.memo = st.memo) (bound : Binds t.functions st other)
    (shows : ∀ v tree, st.heap.Shows v tree → p.StillRight v → other.heap.Shows v tree ∧ q.StillRight v) :
    t.Caches q other := by
  unfold Caches at caches ⊢
  cases mode : t.mode with
  | apart =>
    rw [mode] at caches
    exact fun cache found => caches cache (memo ▸ found)
  | lockstep =>
    rw [mode] at caches
    intro cache found enabled label f ts v known tells kept
    obtain ⟨tree, shown, still, settles⟩ := caches cache (memo ▸ found) enabled label f ts v known tells kept
    obtain ⟨shown', still'⟩ := shows v tree shown still
    exact ⟨tree, shown', still', settles.extend bound⟩

/-- The runs are as deep in calls, have written the same, and have a cache or not. -/
def InStep (st st' : State) : Prop :=
  st'.calls = st.calls ∧ st'.console = st.console ∧ st'.memo.isNone = st.memo.isNone

/-- What the bodies of functions need of the states they are entered from. -/
structure Ground (t : Trial) (st st' : State) : Prop where
  uncached : st.Uncached
  bound : ∀ name ∈ t.functions, ∀ v, st.scopes.find? name = some v →
    t.setting.Declares v ∧ st'.scopes.find? name = some v
  inStep : t.mode = .lockstep → InStep st st'
  unbound : t.mode = .lockstep → ∀ name ∈ t.functions, st.scopes.find? name = none → st'.scopes.find? name = none

theorem Ground.of_same {t : Trial} {st st' other other' : State} (ground : t.Ground st st')
    (uncached : other.Uncached)
    (same : ∀ name ∈ t.functions, other.scopes.find? name = st.scopes.find? name)
    (same' : ∀ name ∈ t.functions, other'.scopes.find? name = st'.scopes.find? name)
    (inStep : t.mode = .lockstep → InStep other other') : t.Ground other other' where
  uncached := uncached
  bound name function v found := by
    rw [same name function] at found
    rw [same' name function]
    exact ground.bound name function v found
  inStep := inStep
  unbound lockstep name function absent := by
    rw [same name function] at absent
    rw [same' name function]
    exact ground.unbound lockstep name function absent

/-- Where the code of both runs stands. -/
inductive Place where
  /-- Top-level code after the declarations of some functions. -/
  | top (declared : List String) (known : List (List String))
  /-- The body of a function. -/
  | body (names : List String) (outer : List (List String))

namespace Place

def outlook : Place → Outlook
  | top _ _ => .top
  | body names outer => .body (names ++ outer.flatten)

def inner (names : List String) : Place → Place
  | top declared known => top declared (names :: known)
  | body others outer => body names (others :: outer)

def knowing (name : String) : Place → Place
  | body names outer => body (name :: names) outer
  | place => place

def within (place : Place) : Stmt → Place
  | .forEach name _ _ => (place.inner []).knowing name
  | _ => place.inner []

theorem within_of_unbound (place : Place) {s : Stmt} (unbound : ∀ name items body, s ≠ .forEach name items body) :
    place.within s = place.inner [] := by
  cases s with
  | forEach name items body => exact absurd rfl (unbound name items body)
  | _ => rfl

theorem outlook_inner (place : Place) : (place.inner []).outlook = place.outlook := by
  cases place <;> rfl

theorem outlook_knowing (place : Place) (name : String) :
    (place.knowing name).outlook = place.outlook.knowing name := by
  cases place <;> rfl

theorem inner_knowing (place : Place) (name : String) : ∃ names, (place.inner []).knowing name = place.inner names := by
  cases place with
  | top declared known => exact ⟨[], rfl⟩
  | body names outer => exact ⟨[name], rfl⟩

end Place

/-- A point in the code of two runs, with the states in which the code at work
was entered and what went together then. -/
structure Site where
  entry : Pairing
  start : State
  start' : State
  place : Place

namespace Site

/-- The number of arrays when the code was entered. -/
def base (site : Site) : Nat :=
  site.start.heap.cells.size

def outlook (site : Site) : Outlook :=
  site.place.outlook

def atPlace (site : Site) (place : Place) : Site :=
  { site with place := place }

end Site

inductive Scoped (t : Trial) (p : Pairing) (start start' : State) : Place → Scopes → Scopes → Prop
  | top {declared : List String} {known : List (List String)} {s s' : Scopes}
      (inner : Stacks p t.functions known s.inner s'.inner) (globals : Scope.Tied p s.globals s'.globals)
      (functions : ∀ name ∈ t.functions, ∀ v, Scope.find? name s.globals = some v →
        name ∈ declared ∧ t.setting.Declares v) :
      Scoped t p start start' (.top declared known) s s'
  | body {names : List String} {outer : List (List String)} {own own' : List Scope}
      (sides : Stacks p t.functions (names :: outer) own own') :
      Scoped t p start start' (.body names outer) (start.scopes.topped own) (start'.scopes.topped own')

/-- The states of two runs at a site. -/
structure Related (t : Trial) (p : Pairing) (site : Site) (st st' : State) : Prop where
  /-- Values alone are compared of calls only. -/
  lockstep : site.outlook = .top → t.mode = .lockstep
  joins : p.Joins st.heap st'.heap
  framed : site.start.heap.Framed st.heap
  framed' : site.start'.heap.Framed st'.heap
  /-- What the code at work has made goes together with what it has made. -/
  above : ∀ cell cell', p.live cell cell' → site.start.heap.cells.size ≤ cell → site.start'.heap.cells.size ≤ cell'
  /-- What it has not made was made in a call, or is to stay as it is. -/
  own : ∀ cell, site.start.heap.cells.size ≤ cell → cell < st.heap.cells.size →
    p.Left cell ∨ site.start.calls < t.care.made cell ∨ t.care.stays cell (st.heap.items cell)
  /-- What was live still is, or is to stay as it is. -/
  kept : ∀ cell cell', site.entry.live cell cell' →
    p.live cell cell' ∨ (cell < st.heap.cells.size ∧ t.care.stays cell (st.heap.items cell))
  calls : st.calls = site.start.calls
  calls' : st'.calls = site.start'.calls
  cache : st.memo.isNone = site.start.memo.isNone
  cache' : st'.memo.isNone = site.start'.memo.isNone
  /-- The body of a function writes nothing. -/
  silent : site.outlook ≠ .top → st.console = site.start.console ∧ st'.console = site.start'.console
  caches : t.Caches p st'
  ground : t.Ground st st'
  scopes : t.Scoped p site.start site.start' site.place st.scopes st'.scopes

theorem related_entered {t : Trial} {p : Pairing} {st st' : State} {place : Place} {s s' : Scopes}
    (lockstep : place.outlook = .top → t.mode = .lockstep) (joins : p.Joins st.heap st'.heap)
    (caches : t.Caches p { st' with scopes := s' })
    (ground : t.Ground { st with scopes := s } { st' with scopes := s' }) (scopes : t.Scoped p st st' place s s') :
    t.Related p ⟨p, st, st', place⟩ { st with scopes := s } { st' with scopes := s' } where
  lockstep := lockstep
  joins := joins
  framed := .refl joins.forest
  framed' := .refl joins.forest'
  above _ cell' live above := absurd (joins.fits.known_left ⟨cell', live⟩) (Nat.not_lt.2 above)
  own _ above below := absurd below (Nat.not_lt.2 above)
  kept _ _ := Or.inl
  calls := rfl
  calls' := rfl
  cache := rfl
  cache' := rfl
  silent _ := ⟨rfl, rfl⟩
  caches := caches
  ground := ground
  scopes := scopes

theorem find?_topped {own : List Scope} {name : String} (absent : Scopes.findIn name own = none) (s : Scopes) :
    (s.topped own).find? name = s.find? name := by
  simp only [Scopes.find?, Scopes.topped, Scopes.findIn_append, absent, Option.none_or]

theorem find?_set_ne {name other : String} (differ : other ≠ name) (v : Value) (s : Scopes) :
    (s.set name v).find? other = s.find? other := by
  obtain ⟨inner, globals⟩ := s
  cases inner with
  | nil => exact Scope.find?_set_ne differ v globals
  | cons scope outer => simp only [Scopes.set, Scopes.find?, Scopes.findIn, Scope.find?_set_ne differ]

theorem findIn_assignIn_ne {name other : String} (differ : other ≠ name) {v : Value} {own rebound : List Scope}
    (located : Scopes.assignIn name v own = some rebound) : Scopes.findIn other rebound = Scopes.findIn other own := by
  induction own generalizing rebound with
  | nil => cases located
  | cons scope own ih =>
    simp only [Scopes.assignIn] at located
    split at located
    · cases located
      simp only [Scopes.findIn, Scope.find?_set_ne differ]
    · obtain ⟨later, found, rfl⟩ := Option.map_eq_some_iff.1 located
      simp only [Scopes.findIn, ih found]

theorem find?_assign_ne {name other : String} (differ : other ≠ name) {v : Value} {s changed : Scopes}
    (assigned : s.assign? name v = some changed) : changed.find? other = s.find? other := by
  simp only [Scopes.assign?] at assigned
  split at assigned
  next located =>
    cases assigned
    simp only [Scopes.find?, findIn_assignIn_ne differ located]
  next =>
    split at assigned
    · cases assigned
      simp only [Scopes.find?, Scope.find?_set_ne differ]
    · cases assigned

variable {t : Trial} {p q : Pairing} {site : Site} {st st' : State} {name : String} {v w : Value}

namespace Scoped

variable {start start' : State} {place : Place} {s s' : Scopes}

theorem mono (places : t.Scoped p start start' place s s') (le : p ≤ q) :
    t.Scoped q start start' place s s' := by
  cases places with
  | top inner globals functions => exact .top (inner.mono le) (globals.mono le) functions
  | body sides => exact .body (sides.mono le)

theorem set (places : t.Scoped p start start' place s s') (plain : name ∉ t.functions) (ties : p.Ties v w) :
    t.Scoped p start start' (place.knowing name) (s.set name v) (s'.set name w) := by
  cases places with
  | @top _ _ s s' inner globals functions =>
    obtain ⟨own, bound⟩ := s
    obtain ⟨own', bound'⟩ := s'
    cases inner.tied with
    | nil =>
      refine .top inner (globals.set name ties) fun other function x found => ?_
      rw [Scopes.set, Scope.find?_set_ne (ne_of_mem_of_not_mem function plain)] at found
      exact functions other function x found
    | cons first rest =>
      cases inner.knows with
      | cons knows below =>
        exact .top (.cons (first.set name ties) ((knows.set plain v).mono (List.subset_cons_self _ _))
          ⟨rest, below⟩) globals functions
  | body sides =>
    obtain ⟨scope, scope', below, below', rfl, rfl, tied, knows, rest⟩ := sides.uncons
    exact .body (.cons (tied.set name ties) (knows.set plain v) rest)

theorem assign (places : t.Scoped p start start' place s s') (sees : place.outlook.sees t.functions name)
    (plain : name ∉ t.functions) (ties : p.Ties v w) :
    (s.assign? name v = none ∧ s'.assign? name w = none ∧ place.outlook = .top) ∨
      ∃ changed changed', s.assign? name v = some changed ∧ s'.assign? name w = some changed' ∧
        t.Scoped p start start' place changed changed' := by
  cases places with
  | @top _ _ s s' inner globals functions =>
    simp only [Scopes.assign?, globals.binds_eq name]
    rcases Stacks.assignIn_tied inner.tied name ties with
      ⟨absent, absent'⟩ | ⟨rebound, rebound', located, located', tied⟩
    · rw [absent, absent']
      by_cases bound : Scope.binds name s.globals
      · rw [if_pos bound, if_pos bound]
        refine Or.inr ⟨_, _, rfl, rfl, .top inner (globals.set name ties) fun other function x found => ?_⟩
        rw [Scope.find?_set_ne (ne_of_mem_of_not_mem function plain)] at found
        exact functions other function x found
      · rw [if_neg bound, if_neg bound]
        exact Or.inl ⟨rfl, rfl, rfl⟩
    · rw [located, located']
      have knows := Stacks.assignIn_knows inner.knows plain located
      exact Or.inr ⟨_, _, rfl, rfl, .top ⟨tied, knows⟩ globals functions⟩
  | @body names outer own own' sides =>
    have member : name ∈ (names :: outer).flatten := by simpa [Place.outlook, Outlook.sees] using sees
    obtain ⟨x, y, found, -, -⟩ := sides.known_bound member
    obtain ⟨rebound, located⟩ := OwnScopes.assignIn_isSome (v := v) found
    rcases Stacks.assignIn_tied sides.tied name ties with ⟨absent, -⟩ | ⟨_, rebound', again, located', tied⟩
    · rw [located] at absent
      cases absent
    · obtain rfl := Option.some.inj (again.symm.trans located)
      refine Or.inr ⟨_, _, OwnScopes.assign?_own located _, OwnScopes.assign?_own located' _, .body ⟨tied, ?_⟩⟩
      exact Stacks.assignIn_knows sides.knows plain located

theorem enter (places : t.Scoped p start start' place s s') :
    t.Scoped p start start' (place.inner []) s.push s'.push := by
  cases places with
  | top inner globals functions => exact .top inner.enter globals functions
  | body sides => exact .body sides.enter

theorem leave {names : List String} {last last' : Scopes} (places : t.Scoped p start start' place s s')
    (inside : t.Scoped q start start' (place.inner names) last last') :
    t.Scoped q start start' place (last.unwind s.depth) (last'.unwind s'.depth) ∧
      ∀ name ∈ t.functions, (last.unwind s.depth).find? name = last.find? name ∧
        (last'.unwind s'.depth).find? name = last'.find? name := by
  cases places with
  | top outside =>
    cases inside with
    | top inner globals functions =>
      obtain ⟨scope, scope', below, below', opened, opened', -, -, left⟩ := inner.uncons
      rw [Scopes.unwind_innermost opened (left.length_eq.1.trans outside.length_eq.1.symm),
        Scopes.unwind_innermost opened' (left.length_eq.2.trans outside.length_eq.2.symm)]
      refine ⟨.top left globals functions, fun name function => ⟨?_, ?_⟩⟩
      · simp only [Scopes.find?, left.function_unbound function, inner.function_unbound function]
      · simp only [Scopes.find?, left.function_unbound' function, inner.function_unbound' function]
  | body sides =>
    cases inside with
    | body inner =>
      have unbound (name : String) (function : name ∈ t.functions) := inner.function_unbound function
      have unbound' (name : String) (function : name ∈ t.functions) := inner.function_unbound' function
      obtain ⟨scope, scope', below, below', rfl, rfl, -, -, left⟩ := inner.uncons
      rw [Scopes.unwind_topped_cons _ (left.length_eq.1.trans sides.length_eq.1.symm),
        Scopes.unwind_topped_cons _ (left.length_eq.2.trans sides.length_eq.2.symm)]
      refine ⟨.body left, fun name function => ⟨?_, ?_⟩⟩
      · rw [find?_topped (left.function_unbound function), find?_topped (unbound name function)]
      · rw [find?_topped (left.function_unbound' function), find?_topped (unbound' name function)]

theorem left {names : List String} {outer : List (List String)}
    (places : t.Scoped p start start' (.body names outer) s s') :
    s.unwind start.scopes.depth = start.scopes ∧ s'.unwind start'.scopes.depth = start'.scopes ∧
      ∀ name ∈ t.functions, s'.find? name = start'.scopes.find? name := by
  cases places with
  | body sides =>
    refine ⟨Scopes.unwind_topped _ _, Scopes.unwind_topped _ _, fun name function => ?_⟩
    exact find?_topped (sides.function_unbound' function) _

theorem forget (places : t.Scoped p start start' (place.knowing name) s s') :
    t.Scoped p start start' place s s' := by
  cases place with
  | top declared known => exact places
  | body names outer =>
    cases places with
    | body sides =>
      obtain ⟨scope, scope', below, below', rfl, rfl, tied, knows, rest⟩ := sides.uncons
      exact .body (.cons tied (knows.mono (List.subset_cons_self name names)) rest)

end Scoped

namespace Related

/-- A name that may be read is bound in both runs, to values that go together,
or in neither; a function may still be unknown to the first run only. -/
theorem find? (related : t.Related p site st st') (sees : name ∈ t.functions ∨ site.outlook.sees t.functions name) :
    (∃ v w, st.scopes.find? name = some v ∧ st'.scopes.find? name = some w ∧ p.Ties v w) ∨
      (st.scopes.find? name = none ∧ (t.mode = .lockstep → st'.scopes.find? name = none)) := by
  by_cases function : name ∈ t.functions
  · cases found : st.scopes.find? name with
    | some v =>
      obtain ⟨⟨label, known, arity, f, rfl, -⟩, found'⟩ := related.ground.bound name function v found
      exact Or.inl ⟨_, _, rfl, found', .flat nofun⟩
    | none => exact Or.inr ⟨rfl, fun lockstep => related.ground.unbound lockstep name function found⟩
  · have sees := sees.resolve_left function
    obtain ⟨entry, start, start', place⟩ := site
    have scopes := related.scopes
    revert scopes
    generalize st.scopes = s
    generalize st'.scopes = s'
    intro scopes
    cases scopes with
    | top inner globals functions =>
      simp only [Scopes.find?]
      rcases Stacks.findIn_tied inner.tied name with ⟨absent, absent'⟩ | ⟨v, w, found, found', ties⟩
      · rw [absent, absent']
        rcases globals.find? name with ⟨none, none'⟩ | bound
        · exact Or.inr ⟨none, fun _ => none'⟩
        · exact Or.inl bound
      · rw [found, found']
        exact Or.inl ⟨v, w, rfl, rfl, ties⟩
    | @body names outer own own' sides =>
      have member : name ∈ (names :: outer).flatten := by simpa [Site.outlook, Place.outlook, Outlook.sees] using sees
      obtain ⟨v, w, found, found', ties⟩ := sides.known_bound member
      exact Or.inl ⟨v, w, OwnScopes.find?_own found _, OwnScopes.find?_own found' _, ties⟩

theorem moved (related : t.Related p site st st') (place : Place) (outlook : place.outlook = .top ↔ site.outlook = .top)
    {s s' : Scopes}
    (same : ∀ name ∈ t.functions, s.find? name = st.scopes.find? name)
    (same' : ∀ name ∈ t.functions, s'.find? name = st'.scopes.find? name)
    (scopes : t.Scoped p site.start site.start' place s s') :
    t.Related p (site.atPlace place) { st with scopes := s } { st' with scopes := s' } where
  lockstep top := related.lockstep (outlook.1 top)
  joins := related.joins
  framed := related.framed
  framed' := related.framed'
  above := related.above
  own := related.own
  kept := related.kept
  calls := related.calls
  calls' := related.calls'
  cache := related.cache
  cache' := related.cache'
  silent inside := related.silent fun top => inside (outlook.2 top)
  caches := related.caches.keep rfl (fun name function _ found => (same' name function).trans found)
    fun _ _ shown still => ⟨shown, still⟩
  ground := related.ground.of_same related.ground.uncached same same' related.ground.inStep
  scopes := scopes

theorem set (related : t.Related p site st st') (plain : name ∉ t.functions) (ties : p.Ties v w) :
    t.Related p (site.atPlace (site.place.knowing name)) { st with scopes := st.scopes.set name v }
      { st' with scopes := st'.scopes.set name w } := by
  refine related.moved _ ?_ ?_ ?_ (related.scopes.set plain ties)
  · obtain ⟨entry, start, start', place⟩ := site
    cases place <;> simp [Site.outlook, Place.outlook, Place.knowing]
  · exact fun other function => find?_set_ne (ne_of_mem_of_not_mem function plain) _ _
  · exact fun other function => find?_set_ne (ne_of_mem_of_not_mem function plain) _ _

theorem assign (related : t.Related p site st st') (sees : site.outlook.sees t.functions name)
    (plain : name ∉ t.functions) (ties : p.Ties v w) :
    (st.scopes.assign? name v = none ∧ st'.scopes.assign? name w = none ∧ site.outlook = .top) ∨
      ∃ changed changed', st.scopes.assign? name v = some changed ∧ st'.scopes.assign? name w = some changed' ∧
        t.Related p site { st with scopes := changed } { st' with scopes := changed' } := by
  rcases related.scopes.assign sees plain ties with absent | ⟨changed, changed', assigned, assigned', places⟩
  · exact Or.inl absent
  · refine Or.inr ⟨changed, changed', assigned, assigned', related.moved _ Iff.rfl ?_ ?_ places⟩
    · exact fun other function => find?_assign_ne (ne_of_mem_of_not_mem function plain) assigned
    · exact fun other function => find?_assign_ne (ne_of_mem_of_not_mem function plain) assigned'

theorem enter (related : t.Related p site st st') :
    t.Related p (site.atPlace (site.place.inner [])) { st with scopes := st.scopes.push }
      { st' with scopes := st'.scopes.push } := by
  refine related.moved _ ?_ (fun _ _ => rfl) (fun _ _ => rfl) related.scopes.enter
  rw [Place.outlook_inner]
  rfl

theorem leave {names : List String} {last last' : State} (related : t.Related p site st st')
    (inside : t.Related q (site.atPlace (site.place.inner names)) last last') :
    t.Related q site { last with scopes := last.scopes.unwind st.scopes.depth }
      { last' with scopes := last'.scopes.unwind st'.scopes.depth } := by
  obtain ⟨places, same⟩ := related.scopes.leave inside.scopes
  refine inside.moved site.place ?_ (fun name function => (same name function).1)
    (fun name function => (same name function).2) places
  obtain ⟨entry, start, start', place⟩ := site
  cases place <;> simp [Site.outlook, Site.atPlace, Place.outlook, Place.inner]

theorem forget (related : t.Related p (site.atPlace (site.place.knowing name)) st st') : t.Related p site st st' := by
  refine related.moved site.place ?_ (fun _ _ => rfl) (fun _ _ => rfl) related.scopes.forget
  obtain ⟨entry, start, start', place⟩ := site
  cases place <;> simp [Site.outlook, Site.atPlace, Place.outlook, Place.knowing]

end Related

end Trial

end ScriptKernel
