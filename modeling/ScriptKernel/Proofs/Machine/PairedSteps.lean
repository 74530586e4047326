import ScriptKernel.Proofs.Machine.PairedStates
import ScriptKernel.Proofs.Machine.PureCalls

/-!
The steps of the machine in two runs over heaps of their own. Each leads from
related states to related states, and the values it hands on go together. So do
the constructs of code without declarations, for any two evaluators of their
parts that agree.
-/

namespace ScriptKernel

namespace Trial

open Pairing (Grows)

variable {t : Trial} {p q r : Pairing} {site : Site} {st st' : State} {name : String} {v w : Value}

namespace Related

theorem grown (related : t.Related p site st st') {later later' : Heap}
    (grows : Grows p st.heap st'.heap q later later') (framed : st.heap.Framed later)
    (framed' : st'.heap.Framed later') :
    t.Related q site { st with heap := later } { st' with heap := later' } where
  lockstep := related.lockstep
  joins := ⟨grows.fits, framed.forest, framed'.forest⟩
  framed := related.framed.trans framed
  framed' := related.framed'.trans framed'
  above cell cell' live mine := by
    rcases grows.old live with old | ⟨-, new⟩
    · exact related.above cell cell' old mine
    · exact related.framed'.extends_.size_le.trans new
  own cell mine known := by
    by_cases old : cell < st.heap.cells.size
    · rw [framed.extends_.kept cell old]
      exact (related.own cell mine old).imp_left fun ⟨cell', live⟩ => ⟨cell', grows.live live⟩
    · exact Or.inl (grows.new (Nat.le_of_not_lt old) known)
  kept cell cell' live := by
    rcases related.kept cell cell' live with still | ⟨known, stays⟩
    · exact Or.inl (grows.live still)
    · exact Or.inr ⟨Nat.lt_of_lt_of_le known framed.extends_.size_le, by rwa [framed.extends_.kept cell known]⟩
  calls := related.calls
  calls' := related.calls'
  cache := related.cache
  cache' := related.cache'
  silent := related.silent
  caches := by
    refine related.caches.keep rfl (fun _ _ _ => id) fun v tree shown still => ?_
    refine ⟨Heap.Shows.extend framed'.extends_ shown, ?_⟩
    rintro root rfl ⟨cell, live⟩
    rcases grows.old live with old | ⟨-, new⟩
    · exact still root rfl ⟨cell, old⟩
    · cases shown with
      | leaf flat => exact flat root rfl
      | node known => exact absurd known (Nat.not_lt.2 new)
  ground := related.ground.of_same related.ground.uncached (fun _ _ => rfl) (fun _ _ => rfl) related.ground.inStep
  scopes := related.scopes.mono grows.le

theorem changed (related : t.Related p site st st') {cell cell' : Nat} (live : p.live cell cell')
    (mine : site.start.heap.cells.size ≤ cell) (loose : t.care.stays cell (st.heap.items cell) = false)
    {f f' : Array Value → Array Value} (adds : Heap.Adds v f) (adds' : Heap.Adds w f')
    (ties : List.Forall₂ p.Ties (f (st.heap.items cell)).toList (f' (st'.heap.items cell')).toList)
    (forest : (st.heap.change cell f).Forest) (forest' : (st'.heap.change cell' f').Forest)
    (new : ∀ inner, v = .array inner → site.start.heap.cells.size ≤ inner)
    (new' : ∀ inner, w = .array inner → site.start'.heap.cells.size ≤ inner) :
    t.Related p site { st with heap := st.heap.change cell f } { st' with heap := st'.heap.change cell' f' } where
  lockstep := related.lockstep
  joins := ⟨related.joins.fits.change live ties, forest, forest'⟩
  framed := related.framed.change (related.joins.fits.known_left ⟨cell', live⟩) mine adds forest new
  framed' := related.framed'.change (related.joins.fits.known_right ⟨cell, live⟩)
    (related.above cell cell' live mine) adds' forest' new'
  above := related.above
  own other above below := by
    rw [Heap.size_change] at below
    by_cases same : other = cell
    · exact Or.inl ⟨cell', same ▸ live⟩
    · rw [Heap.items_change (related.joins.fits.known_left ⟨cell', live⟩), if_neg same]
      exact related.own other above below
  kept other other' before := by
    rcases related.kept other other' before with still | ⟨below, stays⟩
    · exact Or.inl still
    · have differ : other ≠ cell := by
        rintro rfl
        rw [loose] at stays
        cases stays
      rw [Heap.size_change, Heap.items_change (related.joins.fits.known_left ⟨cell', live⟩), if_neg differ]
      exact Or.inr ⟨below, stays⟩
  calls := related.calls
  calls' := related.calls'
  cache := related.cache
  cache' := related.cache'
  silent := related.silent
  caches := by
    refine related.caches.keep rfl (fun _ _ _ => id) fun v tree shown still => ⟨?_, still⟩
    exact shown.change related.joins.fits.around' ⟨cell, live⟩ (related.joins.fits.known_right ⟨cell, live⟩) f' still
  ground := related.ground.of_same related.ground.uncached (fun _ _ => rfl) (fun _ _ => rfl) related.ground.inStep
  scopes := related.scopes

theorem stored (related : t.Related p site st st') (ties : p.Ties v w) {cell cell' : Nat} (live : p.live cell cell')
    (mine : site.start.heap.cells.size ≤ cell) (loose : t.care.stays cell (st.heap.items cell) = false)
    {f : Value → Array Value → Array Value} (adds : ∀ v, Heap.Adds v (f v))
    (each : ∀ {q : Pairing} {v w : Value} {xs ys : Array Value}, List.Forall₂ q.Ties xs.toList ys.toList →
      q.Ties v w → List.Forall₂ q.Ties (f v xs).toList (f w ys).toList) :
    ∃ q, p ≤ q ∧ t.Related q site
      { st with heap := (st.heap.copy v).1.change cell (f (st.heap.copy v).2) }
      { st' with heap := (st'.heap.copy w).1.change cell' (f (st'.heap.copy w).2) } := by
  obtain ⟨fits, forest, forest'⟩ := related.joins
  obtain ⟨q, grows, tied⟩ := fits.copy forest ties
  have copied := Heap.copy_copied forest (fits.known_value ties)
  have copied' := Heap.copy_copied forest' (fits.known_value' ties)
  obtain ⟨known, known'⟩ := fits.known (fits.pair live)
  have live' := grows.live live
  have loose' : t.care.stays cell ((st.heap.copy v).1.items cell) = false := by
    rwa [copied.extends_.kept cell known]
  have after := related.grown grows copied.framed copied'.framed
  refine ⟨q, grows.le, after.changed live' mine loose' (adds _) (adds _)
    (each (grows.fits.items (grows.fits.pair live')) tied) (copied.change (adds _) known)
    (copied'.change (adds _) known') ?_ ?_⟩
  · intro inner same
    exact related.framed.extends_.size_le.trans (Heap.copy_new same)
  · intro inner same
    exact related.framed'.extends_.size_le.trans (Heap.copy_new same)

/-- After calls that have made arrays of their own, those that show the same go
together. Some that were live may stay as they are. -/
theorem returned (related : t.Related p site st st') {last last' : State} (since : Since st last)
    (since' : Since st' last') (uncached : last.Uncached) (le : p ≤ q) (fits : q.Fits st.heap st'.heap)
    (fewer : ∀ cell cell', q.live cell cell' → p.live cell cell')
    (rest : ∀ cell cell', p.live cell cell' → q.live cell cell' ∨ t.care.stays cell (last.heap.items cell))
    (caches : t.Caches q last')
    (made : ∀ cell, st.heap.cells.size ≤ cell → cell < last.heap.cells.size → st.calls < t.care.made cell) :
    t.Related (q.settled last.heap last'.heap) site last last' where
  lockstep := related.lockstep
  joins := ⟨fits.settle since.heap since'.heap, since.heap.forest, since'.heap.forest⟩
  framed := related.framed.trans since.heap
  framed' := related.framed'.trans since'.heap
  above cell cell' live := related.above cell cell' (fewer cell cell' live)
  own cell mine known := by
    by_cases old : cell < st.heap.cells.size
    · have still := related.own cell mine old
      rw [← since.heap.extends_.kept cell old] at still
      rcases still with ⟨cell', live⟩ | other
      · exact (rest cell cell' live).imp (fun live => ⟨cell', live⟩) Or.inr
      · exact Or.inr other
    · exact Or.inr (Or.inl (related.calls ▸ made cell (Nat.le_of_not_lt old) known))
  kept cell cell' before := by
    rcases related.kept cell cell' before with live | ⟨known, stays⟩
    · refine (rest cell cell' live).imp_right fun stays => ⟨?_, stays⟩
      exact Nat.lt_of_lt_of_le (related.joins.fits.known (related.joins.fits.pair live)).1 since.heap.extends_.size_le
    · refine Or.inr ⟨Nat.lt_of_lt_of_le known since.heap.extends_.size_le, ?_⟩
      rwa [since.heap.extends_.kept cell known]
  calls := since.calls.trans related.calls
  calls' := since'.calls.trans related.calls'
  cache := since.cache.trans related.cache
  cache' := since'.cache.trans related.cache'
  silent inside := by
    rw [since.console, since'.console]
    exact related.silent inside
  caches := caches
  ground := by
    refine related.ground.of_same uncached (fun name _ => by rw [since.scopes]) (fun name _ => by rw [since'.scopes])
      fun lockstep => ?_
    rw [InStep, since.calls, since'.calls, since.console, since'.console, since.cache, since'.cache]
    exact related.ground.inStep lockstep
  scopes := by
    rw [since.scopes, since'.scopes]
    exact related.scopes.mono (le_trans le (Pairing.le_settled q _ _))

theorem written (related : t.Related p site st st') (top : site.outlook = .top) (console : Console) :
    t.Related p site { st with console := console } { st' with console := console } :=
  { related with
    silent := fun inside => absurd top inside
    caches := related.caches.keep rfl (fun _ _ _ => id) fun _ _ shown still => ⟨shown, still⟩
    ground := related.ground.of_same related.ground.uncached (fun _ _ => rfl) (fun _ _ => rfl) fun lockstep =>
      ⟨(related.ground.inStep lockstep).1, rfl, (related.ground.inStep lockstep).2.2⟩ }

theorem uncached_enable (memo : Option Memo) (st : State) :
    State.Uncached { st with memo := memo.map (·.enable false) } := by
  intro cache found
  obtain ⟨memo, -, rfl⟩ := Option.map_eq_some_iff.1 found
  rfl

theorem switched (related : t.Related p site st st') (top : site.outlook = .top) :
    t.Related p site { st with memo := st.memo.map (·.enable false) }
      { st' with memo := st'.memo.map (·.enable false) } :=
  { related with
    cache := Option.isNone_map.trans related.cache
    cache' := Option.isNone_map.trans related.cache'
    caches := by
      rw [Caches, related.lockstep top]
      intro cache found enabled
      rw [uncached_enable st'.memo st' cache found] at enabled
      cases enabled
    ground := related.ground.of_same (uncached_enable st.memo st) (fun _ _ => rfl) (fun _ _ => rfl) fun lockstep => by
      obtain ⟨calls, console, cache⟩ := related.ground.inStep lockstep
      exact ⟨calls, console, by rw [Option.isNone_map, Option.isNone_map, cache]⟩ }

end Related

theorem Ground.stopped {α β : Type} (ground : t.Ground st st') (h : Halt) {post : α → State → β → State → Prop} :
    Concur t.mode post (.error h st) (.error h st') := by
  cases mode : t.mode with
  | apart => exact Or.inr (Or.inl rfl)
  | lockstep => exact Or.inr (Or.inr ⟨rfl, (ground.inStep mode).2.1⟩)

variable {α β : Type} {site' mid : Site} {R : Pairing → α → α → Prop} {S : Pairing → β → β → Prop}

def Leads (t : Trial) (p : Pairing) (site site' : Site) (R : Pairing → α → α → Prop) (run run' : Run α) : Prop :=
  ∀ q, p ≤ q → ∀ st st', t.Related q site st st' →
    Concur t.mode (fun a last b last' => ∃ r, q ≤ r ∧ t.Related r site' last last' ∧ R r a b)
      (run t.setting st) (run' t.setting st')

namespace Leads

variable {run run' : Run α}

theorem forget (leads : t.Leads p site (site.atPlace (site.place.knowing name)) R run run') :
    t.Leads p site site R run run' :=
  fun q le st st' related => (leads q le st st' related).mono
    fun _ _ _ _ ⟨r, further, after, holds⟩ => ⟨r, further, after.forget, holds⟩

theorem pure {a b : α} (holds : ∀ q, p ≤ q → R q a b) : t.Leads p site site R (Pure.pure a) (Pure.pure b) :=
  fun q le _ _ related => ⟨q, le_refl q, related, holds q le⟩

theorem bind {next next' : α → Run β} (first : t.Leads p site mid R run run')
    (rest : ∀ q a b, p ≤ q → R q a b → t.Leads q mid site' S (next a) (next' b)) :
    t.Leads p site site' S (run >>= next) (run' >>= next') := by
  intro q le st st' related
  have concur := first q le st st' related
  cases ran : run t.setting st with
  | ok a last =>
    rw [Run.bind_ok next ran]
    cases ran' : run' t.setting st' with
    | ok b last' =>
      rw [ran, ran'] at concur
      obtain ⟨r, further, after, holds⟩ := concur
      rw [Run.bind_ok next' ran']
      have ends := rest r a b (le_trans le further) holds r (le_refl r) last last' after
      exact ends.mono fun _ _ _ _ ⟨s, more, done, result⟩ => ⟨s, le_trans further more, done, result⟩
    | error h last' =>
      rw [ran, ran'] at concur
      rw [Run.bind_error next' ran']
      exact .of_exhausted_second concur.1 concur.2
  | error h last =>
    rw [Run.bind_error next ran]
    cases ran' : run' t.setting st' with
    | ok b last' =>
      rw [ran, ran'] at concur
      exact concur.elim .of_exhausted .of_failed
    | error h' last' =>
      rw [ran, ran'] at concur
      rw [Run.bind_error next' ran']
      exact concur

theorem halt {h : Halt} (exhausted : h.IsExhaustion) : t.Leads p site site' R (Run.halt h) run' :=
  fun _ _ _ _ _ => .of_exhausted exhausted

theorem fault (f : RuntimeFault) (site site' : Site) (R : Pairing → α → α → Prop) :
    t.Leads p site site' R (Run.fault f) (Run.fault f) := by
  intro q _ st st' related
  exact related.ground.stopped _

theorem lift {result result' : Except RuntimeFault α} (both : ∀ q, p ≤ q → Both (R q) result result') :
    t.Leads p site site R (Run.lift result) (Run.lift result') := by
  intro q le st st' related
  cases both q le with
  | ok holds => exact ⟨q, le_refl q, related, holds⟩
  | error f => exact fault f site site R q (le_refl q) st st' related

theorem read {f f' : Heap → Except RuntimeFault α}
    (both : ∀ q heap heap', p ≤ q → q.Joins heap heap' → Both (R q) (f heap) (f' heap')) :
    t.Leads p site site R (Run.read f) (Run.read f') := by
  intro q le st st' related
  unfold Run.read
  cases result : f st.heap <;> cases result' : f' st'.heap <;>
    have related' := both q st.heap st'.heap le related.joins <;> rw [result, result'] at related' <;> cases related'
  next f => exact fault f site site R q (le_refl q) st st' related
  next a b holds => exact ⟨q, le_refl q, related, holds⟩

theorem truth (ties : p.Ties v w) : t.Leads p site site (fun _ => Eq) (Run.truth v) (Run.truth w) := by
  have same : Run.truth w = Run.truth v := by
    unfold Run.truth
    funext setting st
    rw [ties.truth_eq]
  rw [same]
  exact fun q le st st' related => lift (fun _ _ => .same fun _ _ => rfl) q le st st' related

theorem empty (fair : t.Fair) : t.Leads p site site Pairing.Ties (do return (← MonadReader.read).empty)
    (do return (← MonadReader.read).empty) :=
  fun q _ _ _ related => ⟨q, le_refl q, related, .flat fair.empty⟩

theorem lookup (sees : name ∈ t.functions ∨ site.outlook.sees t.functions name) :
    t.Leads p site site Pairing.Ties (Run.lookup name) (Run.lookup name) := by
  intro q le st st' related
  unfold Run.lookup
  rcases related.find? sees with ⟨v, w, found, found', ties⟩ | ⟨absent, absent'⟩
  · rw [found, found']
    exact ⟨q, le_refl q, related, ties⟩
  · rw [absent]
    cases mode : t.mode with
    | apart => exact .of_failed rfl
    | lockstep =>
      rw [absent' mode, ← mode]
      exact fault (.undefined name) site site Pairing.Ties q le st st' related

theorem define (plain : name ∉ t.functions) (ties : p.Ties v w) :
    t.Leads p site (site.atPlace (site.place.knowing name)) (fun _ _ _ => True) (Run.scopes (Scopes.set name v))
      (Run.scopes (Scopes.set name w)) :=
  fun q le _ _ related => ⟨q, le_refl q, related.set plain (ties.mono le), trivial⟩

theorem assign (sees : site.outlook.sees t.functions name) (plain : name ∉ t.functions) (ties : p.Ties v w) :
    t.Leads p site site (fun _ _ _ => True) (Run.assign name v) (Run.assign name w) := by
  intro q le st st' related
  unfold Run.assign
  rcases related.assign sees plain (ties.mono le) with ⟨absent, absent', -⟩ | ⟨_, _, assigned, assigned', after⟩
  · rw [absent, absent']
    exact fault (.undefined name) site site _ q le st st' related
  · rw [assigned, assigned']
    exact ⟨q, le_refl q, after, trivial⟩

theorem assignOrSet (sees : site.outlook.sees t.functions name) (plain : name ∉ t.functions) (ties : p.Ties v w) :
    t.Leads p site site (fun _ _ _ => True) (Run.scopes (Scopes.assignOrSet name v))
      (Run.scopes (Scopes.assignOrSet name w)) := by
  intro q le st st' related
  have ties := ties.mono le
  unfold Run.scopes Scopes.assignOrSet
  rcases related.assign sees plain ties with ⟨absent, absent', top⟩ | ⟨_, _, assigned, assigned', after⟩
  · rw [absent, absent']
    refine ⟨q, le_refl q, ?_, trivial⟩
    have set := related.set plain ties
    obtain ⟨entry, start, start', place⟩ := site
    cases place with
    | top => exact set
    | body => cases top
  · rw [assigned, assigned']
    exact ⟨q, le_refl q, after, trivial⟩

theorem inScope (names : List String) {prepare prepare' : Scopes → Scopes} {part part' : Run α}
    (prepared : ∀ q, p ≤ q → ∀ st st', t.Related q (site.atPlace (site.place.inner [])) st st' →
      t.Related q (site.atPlace (site.place.inner names)) { st with scopes := prepare st.scopes }
        { st' with scopes := prepare' st'.scopes })
    (inside : t.Leads p (site.atPlace (site.place.inner names)) (site.atPlace (site.place.inner names)) R part part') :
    t.Leads p site site R (Run.inScope prepare part) (Run.inScope prepare' part') := by
  intro q le st st' related
  have concur := inside q le _ _ (prepared q le _ _ related.enter)
  simp only [Run.inScope]
  cases ran : part t.setting { st with scopes := prepare st.scopes.push } with
  | ok a last =>
    cases ran' : part' t.setting { st' with scopes := prepare' st'.scopes.push } with
    | ok b last' =>
      rw [ran, ran'] at concur
      obtain ⟨r, further, after, holds⟩ := concur
      exact ⟨r, further, related.leave after, holds⟩
    | error h last' =>
      rw [ran, ran'] at concur
      exact concur
  | error h last =>
    cases ran' : part' t.setting { st' with scopes := prepare' st'.scopes.push } with
    | ok b last' =>
      rw [ran, ran'] at concur
      exact concur
    | error h' last' =>
      rw [ran, ran'] at concur
      exact concur

theorem perform (blind : t.setting.host.Blind) (top : site.outlook = .top) (capability : Capability)
    {vs ws : List Value} (ties : List.Forall₂ p.Ties vs ws) :
    t.Leads p site site Pairing.Ties (Run.perform capability vs) (Run.perform capability ws) := by
  intro q le st st' related
  obtain ⟨-, written, -⟩ := related.ground.inStep (related.lockstep top)
  obtain ⟨same, both⟩ := blind.both related.joins (Pairing.ties_mono ties le) capability st.console.called
  have spared := blind.spares capability st.heap vs st.console.called
  have spared' := blind.spares capability st'.heap ws st.console.called
  cases asked : t.setting.host capability st.heap vs st.console.called with
  | mk after result =>
    cases asked' : t.setting.host capability st'.heap ws st.console.called with
    | mk after' result' =>
      rw [asked] at same both spared
      rw [asked'] at same both spared'
      rw [← written] at asked'
      obtain ⟨heap, console⟩ := after
      obtain ⟨heap', console'⟩ := after'
      dsimp only at same both spared spared'
      subst same spared spared'
      rw [Run.perform_of_asked asked, Run.perform_of_asked asked']
      refine lift (fun r more => ?_) q le_rfl _ _ (related.written top console')
      cases both with
      | ok tied => exact .ok (tied.mono more)
      | error f => exact .error f

theorem memoize (top : site.outlook = .top) :
    t.Leads p site site (fun _ _ _ => True) (Run.memoize false) (Run.memoize false) := by
  intro q le st st' related
  obtain ⟨-, -, cache⟩ := related.ground.inStep (related.lockstep top)
  simp only [Run.memoize, cache]
  split
  · exact related.ground.stopped _
  · exact ⟨q, le_refl q, related.switched top, trivial⟩

theorem allocCopies {vs ws : List Value} (ties : List.Forall₂ p.Ties vs ws) :
    t.Leads p site site Pairing.Ties (Run.allocCopies vs) (Run.allocCopies ws) := by
  intro q le st st' related
  have ties := Pairing.ties_mono ties le
  obtain ⟨fits, forest, forest'⟩ := related.joins
  obtain ⟨r, grows, tied⟩ := fits.copies forest ties
  have copied := Heap.copies_copied forest (fits.known_values ties).1
  have copied' := Heap.copies_copied forest' (fits.known_values ties).2
  have grows := grows.trans (grows.fits.alloc tied)
  exact ⟨_, grows.le, related.grown grows copied.alloc.framed copied'.alloc.framed,
    Pairing.ties_alloc (st.heap.copies vs).1 (st'.heap.copies ws).1 (st.heap.copies vs).2 (st'.heap.copies ws).2⟩

theorem storeCopy {cell cell' : Nat} (pair : p.pairs cell cell') (ties : p.Ties v w)
    {f : Value → Array Value → Array Value} (adds : ∀ v, Heap.Adds v (f v))
    (each : ∀ {q : Pairing} {v w : Value} {xs ys : Array Value}, List.Forall₂ q.Ties xs.toList ys.toList →
      q.Ties v w → List.Forall₂ q.Ties (f v xs).toList (f w ys).toList) :
    t.Leads p site site (fun _ _ _ => True)
      (t.care.store site.base cell (Run.storeCopy (fun heap v => heap.change cell (f v)) v))
      (Run.storeCopy (fun heap v => heap.change cell' (f v)) w) := by
  intro q le st st' related
  unfold Care.store
  have pair := le _ _ pair
  have ties := ties.mono le
  by_cases owns : t.care.Owns site.base st cell
  · have minded : t.care.mind site.base cell t.setting st = .ok () st := if_pos owns
    rw [Run.bind_ok _ minded]
    obtain ⟨mine, depth, loose⟩ := owns
    obtain ⟨known, -⟩ := related.joins.fits.known pair
    rw [related.calls] at depth
    obtain ⟨other, live⟩ : q.Left cell := by
      rcases related.own cell mine known with live | deeper | stays
      · exact live
      · exact absurd deeper (Nat.not_lt.2 depth)
      · rw [loose] at stays
        cases stays
    obtain rfl := related.joins.fits.only live pair
    unfold Run.storeCopy
    by_cases absent : v = .absent
    · rw [if_pos absent, if_pos (ties.absent_iff.2 absent)]
      exact related.ground.stopped _
    · rw [if_neg absent, if_neg fun same => absent (ties.absent_iff.1 same)]
      obtain ⟨r, further, after⟩ := related.stored ties live mine loose adds each
      exact ⟨r, further, after, trivial⟩
  · have stopped : t.care.mind site.base cell t.setting st = .error .outOfFuel st := if_neg owns
    rw [Run.bind_error _ stopped]
    exact .of_exhausted trivial

end Leads

/-- The two runs of code that is entered with so many arrays as a relation. A name
that is defined becomes known, and a loop knows its variable. -/
def correspondence (t : Trial) (base : Nat) : Correspondence where
  World := Pairing
  order := inferInstance
  Place := Site
  Leads p site := t.Leads p site site
  Defines p site name := t.Leads p site (site.atPlace (site.place.knowing name))
  Values := Pairing.Ties
  Reads site x := site.base = base ∧ x.contained t.functions site.outlook
  Does site s := site.base = base ∧ s.contained t.functions site.outlook
  within site s := site.atPlace (site.place.within s)
  defining site name := site.atPlace (site.place.knowing name)
  Signals _ := True
  Fueled := Evaluators.Fueled t.mode

abbrev Agrees (t : Trial) (base : Nat) (ev ev' : Evaluators) : Prop :=
  (t.correspondence base).Agrees ev ev'

variable {base : Nat}

theorem composes : (t.correspondence base).Composes where
  pure := .pure
  bind first rest := Leads.bind first fun v a b le => rest v le a b
  mono leads sub q le st st' related := (leads q le st st' related).mono fun a _ b _ ⟨r, further, after, holds⟩ =>
    ⟨r, further, after, sub r (le_trans le further) a b holds⟩
  bind_defines first rest := Leads.bind first fun v a b le => rest v le a b
  defines_bind first rest := Leads.forget (Leads.bind first fun v a b le => rest v le a b)
  later le ties := ties.mono le

theorem outlook_behind (site : Site) (s : Stmt) :
    Site.outlook ((t.correspondence base).behind site s) = site.outlook.behind s := by
  obtain ⟨entry, start, start', place⟩ := site
  cases place <;> cases s <;> rfl

theorem body_of_contained (site : Site) (entered : site.base = base) {body : List Stmt}
    (contained : Stmt.allContained t.functions site.outlook body) : (t.correspondence base).Body site body := by
  induction body generalizing site with
  | nil => trivial
  | cons s rest ih =>
    rw [Stmt.allContained, Bool.and_eq_true, ← outlook_behind] at contained
    refine ⟨⟨entered, contained.1⟩, ih _ ?_ contained.2⟩
    cases s <;> exact entered

theorem body_inner {site : Site} (entered : site.base = base) {body : List Stmt}
    (contained : Stmt.allContained t.functions site.outlook body) :
    (t.correspondence base).Body (site.atPlace (site.place.inner [])) body := by
  rw [Site.outlook, ← site.place.outlook_inner] at contained
  exact body_of_contained (site.atPlace (site.place.inner [])) entered contained

theorem contains : (t.correspondence base).Contains where
  parts := by
    rintro site x ⟨entered, contained⟩ y member
    exact ⟨entered, Expr.contained_parts contained y member⟩
  exprs := by
    rintro site s ⟨entered, contained⟩ x member
    exact ⟨entered, Stmt.contained_exprs contained x member⟩
  array := by
    rintro site name position x ⟨entered, contained⟩
    rw [Stmt.contained, Bool.and_eq_true, Bool.and_eq_true] at contained
    exact ⟨entered, contained.1.1⟩
  block := by
    rintro (site : Site) body ⟨entered, contained⟩
    exact body_inner entered contained
  cond := by
    rintro (site : Site) test yes no ⟨entered, contained⟩
    rw [Stmt.contained, Bool.and_eq_true, Bool.and_eq_true] at contained
    exact ⟨body_inner entered contained.1.2, body_inner entered contained.2⟩
  whileLoop := by
    rintro (site : Site) test body negated ⟨entered, contained⟩
    rw [Stmt.contained, Bool.and_eq_true] at contained
    exact body_inner entered contained.2
  endless := by
    rintro (site : Site) body ⟨entered, contained⟩
    exact body_inner entered contained
  forEach := by
    rintro (site : Site) name items body ⟨entered, contained⟩
    rw [Stmt.contained, Bool.and_eq_true, Site.outlook, ← Place.outlook_inner, ← Place.outlook_knowing] at contained
    exact body_of_contained (site.atPlace ((site.place.inner []).knowing name)) entered contained.2
  defining _ := trivial
  signals _ _ := trivial
  breaks _ := trivial
  continues _ := trivial

theorem operation_both {x : Expr} {view : Outlook} {f : Heap → Value → Value → Except RuntimeFault Value}
    (here : x.operation = some f) (contained : x.contained t.functions view) {heap heap' : Heap}
    (joins : p.Joins heap heap') {a a' b b' : Value} (left : p.Ties a a') (right : p.Ties b b') :
    Both p.Ties (f heap a b) (f heap' a' b') := by
  cases x with
  | binary op =>
    cases here
    exact Pairing.arith_both op left right
  | compare op =>
    cases here
    exact Pairing.compare_both joins op left right
  | range =>
    cases here
    exact Pairing.range_both left right
  | index =>
    cases here
    exact Pairing.index_both joins left right
  | intBinary | intCompare => cases contained
  | _ => cases here

theorem conversion_both {x : Expr} {view : Outlook} {f : Value → Except RuntimeFault Value}
    (here : x.conversion = some f) (contained : x.contained t.functions view) {a a' : Value} (ties : p.Ties a a') :
    Both p.Ties (f a) (f a') := by
  cases x with
  | negate =>
    cases here
    exact Pairing.negate_both ties
  | not =>
    cases here
    exact Pairing.not_both ties
  | intNegate | flagNot => cases contained
  | _ => cases here

theorem observes (fair : t.Fair) : (t.correspondence base).Observes where
  literal := by
    rintro p site v ⟨-, contained⟩
    refine Pairing.Ties.flat fun cell same => ?_
    subst same
    cases contained
  number _ := .flat (by rintro cell ⟨⟩)
  lookup := by
    rintro p site name ⟨-, contained⟩
    rw [Expr.contained, Bool.or_eq_true] at contained
    exact Leads.lookup (contained.imp_left fun function => by simpa using function)
  empty := Leads.empty fair
  truth ties := Leads.truth ties
  operation := by
    rintro p site x f a a' b b' here ⟨-, contained⟩ left right
    exact Leads.read fun q heap heap' le joins => operation_both here contained joins (left.mono le) (right.mono le)
  conversion := by
    rintro p site x f a a' here ⟨-, contained⟩ ties
    exact Leads.lift fun q le => conversion_both here contained (ties.mono le)
  format := by
    rintro p site template args vs ws ⟨-, contained⟩
    cases contained
  asArray ties := Leads.lift fun q le => (ties.mono le).asArray
  position := by
    rintro p site a a' cell cell' array ties
    refine Leads.read fun q heap heap' le joins => ?_
    rw [Pairing.position_eq ties, Pairing.size_eq joins (array.mono le).pair]
    exact .same fun _ _ => rfl
  course ties := Leads.read fun q heap heap' le joins => Pairing.course_both joins (ties.mono le)

theorem changes : (t.correspondence base).Changes where
  allocCopies ties := Leads.allocCopies ties
  define := by
    rintro p site name x a a' ⟨-, contained⟩ ties
    simp only [Stmt.contained, Bool.and_eq_true, Bool.not_eq_true', List.contains_eq_mem,
      decide_eq_false_iff_not] at contained
    exact (Leads.define contained.1 ties).bind fun _ _ _ _ _ => .pure fun _ _ => .normal
  assignOrSet := by
    rintro p site name x a a' ⟨-, contained⟩ ties
    simp only [Stmt.contained, Bool.and_eq_true, Bool.not_eq_true', List.contains_eq_mem,
      decide_eq_false_iff_not] at contained
    exact Leads.assignOrSet contained.1.2 contained.1.1 ties
  assign := by
    rintro p site name x a a' ⟨-, contained⟩ ties
    simp only [Stmt.contained, Bool.and_eq_true, Bool.not_eq_true', List.contains_eq_mem,
      decide_eq_false_iff_not] at contained
    exact Leads.assign contained.1.2 contained.1.1 ties
  declare := by
    rintro p site label name params body ⟨-, contained⟩
    cases contained
  scope := by
    rintro α (p : Pairing) (site : Site) s R part part' - unbound leads
    change t.Leads p (site.atPlace (site.place.within s)) (site.atPlace (site.place.within s)) R part part' at leads
    rw [site.place.within_of_unbound unbound] at leads
    exact Leads.inScope [] (fun _ _ _ _ related => related) leads
  round := by
    rintro α p (site : Site) name items body R part part' a a' ⟨-, contained⟩ ties leads
    simp only [Stmt.contained, Bool.and_eq_true, Bool.not_eq_true', List.contains_eq_mem,
      decide_eq_false_iff_not] at contained
    obtain ⟨names, knows⟩ := site.place.inner_knowing name
    refine Leads.inScope names (fun q le st st' related => ?_) (knows ▸ leads)
    rw [← knows]
    exact related.set contained.1.1 (ties.mono le)

theorem ends : (t.correspondence base).Ends where
  fuel_pred fueled := fueled.imp_right Nat.le_of_succ_le_succ
  exhausted _ := Leads.halt (h := .outOfFuel) trivial
  exhausted_first _ := Leads.halt (h := .outOfFuel) trivial
  exhausted_second fueled _ _ _ _ _ :=
    .of_exhausted_second (fueled.resolve_right (Nat.not_succ_le_zero _)) trivial

theorem closed (fair : t.Fair) : (t.correspondence base).Closed where
  toComposes := composes
  toContains := contains
  toObserves := observes fair
  toChanges := changes
  toEnds := ends

theorem strays (site : Site) : (t.correspondence base).Strays site :=
  fun _ _ _ _ _ _ _ => .fault _ _ _ _

end Trial

end ScriptKernel
