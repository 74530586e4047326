import ScriptKernel.Proofs.Machine.PairedSteps

/-!
Calls in two runs over heaps of their own. A body runs on scopes and arrays of
its own, so that two calls with arguments that show the same trees give values
that show the same, wherever they are made. That is why a kept result may stand
for the call it was kept from, as long as it is left alone.
-/

namespace ScriptKernel

open Heap (Alike)

variable {p q : Pairing} {functions names : List String} {params : List String} {args args' : List Value}

theorem Scope.Tied.ofBindings {scope scope' : Scope} (tied : Tied p scope scope') (params : List String)
    (ties : List.Forall₂ p.Ties args args') :
    Tied p (Scope.ofBindings (params.zip args) scope) (Scope.ofBindings (params.zip args') scope') := by
  induction ties generalizing params scope scope' with
  | nil => cases params <;> exact tied
  | cons first _ ih =>
    cases params with
    | nil => exact tied
    | cons param params => exact ih (tied.set param first) params

theorem Scope.Knows.ofBindings {scope : Scope} (knows : Knows functions names scope)
    (length : args.length = params.length) (plain : ∀ param ∈ params, param ∉ functions) :
    Knows functions (params ++ names) (Scope.ofBindings (params.zip args) scope) := by
  induction params generalizing args names scope with
  | nil => exact knows
  | cons param params ih =>
    obtain ⟨v, args, rfl⟩ := List.exists_cons_of_length_eq_add_one length
    rw [List.forall_mem_cons] at plain
    have rest := ih (knows.set plain.1 v) (Nat.succ.inj length) plain.2
    refine rest.mono fun name member => ?_
    simp only [List.cons_append, List.mem_cons, List.mem_append] at member ⊢
    tauto

namespace Trial

variable {t : Trial} {st st' last last' : State} {here ev' : Evaluators} {label : Nat} {f : Function} {v w : Value}

/-- What two calls give: new arrays, values that show the same, and what is live
still then. -/
structure Gives (t : Trial) (p : Pairing) (st st' : State) (v : Value) (last : State) (w : Value) (last' : State)
    (q : Pairing) : Prop where
  since : Since st last
  since' : Since st' last'
  uncached : last.Uncached
  alike : Alike last.heap last'.heap v w
  le : p ≤ q
  fits : q.Fits st.heap st'.heap
  fewer : ∀ cell cell', q.live cell cell' → p.live cell cell'
  rest : ∀ cell cell', p.live cell cell' → q.live cell cell' ∨ t.care.stays cell (last.heap.items cell)
  caches : t.Caches q last'
  still : t.care.Returns st last v → q.StillLeft v ∧ q.StillRight w

theorem related_body (fair : t.Fair) (known : t.setting.code[label]? = some f) (joins : p.Joins st.heap st'.heap)
    (ties : List.Forall₂ p.Ties args args') (length : args.length = f.params.length) (ground : t.Ground st st')
    (caches : t.Caches p st') :
    t.Related p
      ⟨p, { st with calls := st.calls + 1 }, { st' with calls := st'.calls + 1 }, .body f.params []⟩
      { st with
        calls := st.calls + 1
        scopes := st.scopes.topped [Scope.ofBindings (f.params.zip args) []] }
      { st' with
        calls := st'.calls + 1
        scopes := st'.scopes.topped [Scope.ofBindings (f.params.zip args') []] } := by
  have contained := fair.code label f known
  simp only [Function.contained, Bool.and_eq_true, List.all_eq_true, Bool.not_eq_true', List.contains_eq_mem,
    decide_eq_false_iff_not] at contained
  have sides : Stacks p t.functions [f.params] [Scope.ofBindings (f.params.zip args) []]
      [Scope.ofBindings (f.params.zip args') []] := by
    have knows := (Scope.Knows.nil t.functions).ofBindings length contained.1
    rw [List.append_nil] at knows
    exact (Stacks.nil p t.functions).cons (Scope.Tied.ofBindings .nil f.params ties) knows
  have unbound {name : String} (function : name ∈ t.functions) :=
    find?_topped (sides.function_unbound function) st.scopes
  have unbound' {name : String} (function : name ∈ t.functions) :=
    find?_topped (sides.function_unbound' function) st'.scopes
  refine related_entered (by rintro ⟨⟩) ?joins ?caches ?ground ?scopes
  case joins => exact joins
  case caches =>
    exact caches.keep rfl (fun name function _ found => (unbound' function).trans found)
      fun _ _ shown still => ⟨shown, still⟩
  case ground =>
    refine ground.of_same ground.uncached (fun _ => unbound) (fun _ => unbound') fun lockstep => ?_
    obtain ⟨calls, console, cache⟩ := ground.inStep lockstep
    exact ⟨congrArg (· + 1) calls, console, cache⟩
  case scopes => exact .body sides

theorem stillLeft_of_returns {q : Pairing} (fits : q.Fits st.heap st'.heap) (returns : t.care.Returns st last v)
    (moving : ∀ cell cell', q.live cell cell' → ¬t.care.Rests last.heap cell) : q.StillLeft v := by
  rintro cell rfl ⟨cell', live⟩
  rcases returns.array with new | rests
  · exact absurd (fits.known (fits.pair live)).1 (Nat.not_lt.2 new)
  · exact moving cell cell' live rests

theorem fits_left {r : Pairing} (fits : p.Fits st.heap st'.heap) (after : r.Joins last.heap last'.heap) (le : p ≤ r)
    (since : st.heap.Framed last.heap) :
    (p.retain fun cell cell' => r.live cell cell' ∧ ¬t.care.Rests last.heap cell).Fits st.heap st'.heap := by
  refine fits.retain fun outer outer' inner inner' around live holds holds' retained => ?_
  obtain ⟨still, moving⟩ := retained
  have within : last.heap.Holds outer inner := by
    rwa [Heap.Holds, since.extends_.kept outer (fits.known (fits.pair around)).1]
  obtain ⟨other, live⟩ := after.fits.around outer inner within ⟨inner', still⟩
  obtain rfl := after.fits.only live (le _ _ (fits.pair around))
  exact ⟨live, fun rests => moving (rests.within within)⟩

theorem gives_of_finished {names : List String} {r : Pairing} (joins : p.Joins st.heap st'.heap) (le : p ≤ r)
    (after : t.Related r
      ⟨p, { st with calls := st.calls + 1 }, { st' with calls := st'.calls + 1 }, .body names []⟩ last last')
    (tied : r.Ties v w) :
    t.Gives p st st' v { last with scopes := last.scopes.unwind st.scopes.depth, calls := last.calls - 1 }
      w { last' with scopes := last'.scopes.unwind st'.scopes.depth, calls := last'.calls - 1 }
      (p.retain fun cell cell' => r.live cell cell' ∧ ¬t.care.Rests last.heap cell) := by
  obtain ⟨left, left', bound⟩ := after.scopes.left
  obtain ⟨console, console'⟩ := after.silent (by rintro ⟨⟩)
  have calls : last.calls - 1 = st.calls := by rw [after.calls, Nat.add_sub_cancel]
  have calls' : last'.calls - 1 = st'.calls := by rw [after.calls', Nat.add_sub_cancel]
  have fits : (p.retain fun cell cell' => r.live cell cell' ∧ ¬t.care.Rests last.heap cell).Fits st.heap st'.heap :=
    fits_left joins.fits after.joins le after.framed
  constructor
  case since => exact ⟨after.framed, left, calls, console, after.cache⟩
  case since' => exact ⟨after.framed', left', calls', console', after.cache'⟩
  case uncached => exact after.ground.uncached
  case alike => exact after.joins.alike tied
  case le => exact fun _ _ => id
  case fits => exact fits
  case fewer => exact fun _ _ => And.left
  case rest =>
    intro cell cell' live
    by_cases rests : t.care.Rests last.heap cell
    · exact Or.inr rests.stays
    · exact (after.kept cell cell' live).imp (fun still => ⟨live, still, rests⟩) And.right
  case caches =>
    refine after.caches.keep rfl (fun name function _ found => ?_) fun _ _ shown still => ⟨shown, fun cell same => ?_⟩
    · rw [bound name function] at found
      rwa [left']
    · exact fun left => still cell same (left.imp fun _ live => live.2.1)
  case still =>
    intro returns
    have returns : t.care.Returns st last v := returns
    have still := stillLeft_of_returns fits returns fun _ _ live => live.2.2
    refine ⟨still, ?_⟩
    rintro cell' rfl ⟨cell, live⟩
    cases tied with
    | flat flat => exact absurd rfl (flat cell')
    | array pair =>
      obtain rfl := after.joins.fits.only' live.2.1 pair
      exact still _ rfl ⟨cell', live⟩

theorem activate_concurs (fair : t.Fair) (agrees : t.Agrees st.heap.cells.size here ev')
    (known : t.setting.code[label]? = some f) (joins : p.Joins st.heap st'.heap)
    (ties : List.Forall₂ p.Ties args args') (length : args.length = f.params.length) (ground : t.Ground st st')
    (caches : t.Caches p st') :
    Concur t.mode (fun v last w last' => ∃ q, t.Gives p st st' v last w last' q) (here.activate f args t.setting st)
      (ev'.activate f args' t.setting st') := by
  have contained := fair.code label f known
  simp only [Function.contained, Bool.and_eq_true] at contained
  have related := related_body fair known joins ties length ground caches
  let site : Site :=
    ⟨p, { st with calls := st.calls + 1 }, { st' with calls := st'.calls + 1 }, .body f.params []⟩
  have stand : (t.correspondence st.heap.cells.size).Body site f.body :=
    body_of_contained site rfl (by simpa [site, Site.outlook, Place.outlook] using contained.2)
  have leads : t.Leads p site site Pairing.Ties (here.body f.name f.body) (ev'.body f.name f.body) :=
    agrees.functionBody (closed fair) (strays site) f.name stand
  have concur := leads p (le_refl p) _ _ related
  have opened (args : List Value) (s : Scopes) :
      (f.params.zip args).foldl (fun s binding => s.set binding.1 binding.2) s.push =
        s.topped [Scope.ofBindings (f.params.zip args) []] := Scopes.bindings_push (f.params.zip args) s []
  simp only [Evaluators.activate, Run.inScope, opened]
  generalize st.scopes.topped _ = s at concur ⊢
  generalize st'.scopes.topped _ = s' at concur ⊢
  cases ran : here.body f.name f.body t.setting { st with scopes := s, calls := st.calls + 1 } with
  | ok v last =>
    cases ran' : ev'.body f.name f.body t.setting { st' with scopes := s', calls := st'.calls + 1 } with
    | ok w last' =>
      rw [ran, ran'] at concur
      obtain ⟨r, le, after, tied⟩ := concur
      exact ⟨_, gives_of_finished joins le after tied⟩
    | error h last' =>
      rw [ran, ran'] at concur
      exact concur
  | error h last =>
    cases ran' : ev'.body f.name f.body t.setting { st' with scopes := s', calls := st'.calls + 1 } with
    | ok w last' =>
      rw [ran, ran'] at concur
      exact concur
    | error h' last' =>
      rw [ran, ran'] at concur
      exact concur

/-- The same two runs compared by values only. -/
def byValue (t : Trial) : Trial :=
  { t with mode := .apart }

theorem Fair.byValue (fair : t.Fair) : t.byValue.Fair :=
  ⟨fair.code, fair.empty, fair.host, fair.tells⟩

/-- With any fuel a careful run gives the same values as a run without a cache. -/
def Steady (t : Trial) (fuel : Nat) : Prop :=
  ∀ fuel' base, t.byValue.Agrees base (careful t.care fuel base) (evaluators fuel')

variable {fuel base : Nat} {ts : List Unfolding} {tree : Unfolding}

theorem settles_of_ok (fair : t.Fair) (steady : t.Steady fuel) (known : t.setting.code[label]? = some f)
    (forest : st.heap.Forest) (shown : st.heap.ShowAll args ts) (length : args.length = f.params.length)
    (uncached : st.Uncached)
    (declares : ∀ name ∈ t.functions, ∀ v, st.scopes.find? name = some v → t.setting.Declares v)
    (ran : (careful t.care fuel st.heap.cells.size).activate f args t.setting st = .ok v last)
    (result : last.heap.Shows v tree) : t.Settles st f ts tree := by
  intro fuel' other args' wider off forest' shown'
  have joins : (Pairing.apart.settled st.heap other.heap).Joins st.heap other.heap :=
    ⟨(Pairing.fits_apart forest forest').settle (.refl forest) (.refl forest'), forest, forest'⟩
  have ties : List.Forall₂ (Pairing.apart.settled st.heap other.heap).Ties args args' :=
    Pairing.ties_settled_all (shown.alike shown') (fun _ _ _ _ left => left.elim fun _ => False.elim)
      fun _ _ _ _ right => right.elim fun _ => False.elim
  have ground : t.byValue.Ground st other :=
    ⟨uncached, fun name function v found => ⟨declares name function v found, wider name function v found⟩, nofun, nofun⟩
  have concur := activate_concurs fair.byValue (steady fuel' _) known joins ties length ground off
  rw [show t.byValue.setting = t.setting from rfl, ran] at concur
  cases ran' : (evaluators fuel').activate f args' t.setting other with
  | ok w last' =>
    rw [ran'] at concur
    obtain ⟨q, gives⟩ := concur
    obtain ⟨tree', shown, shown'⟩ := gives.alike
    obtain rfl := result.unique _ shown
    exact ⟨shown', gives.since', gives.caches⟩
  | error h last' =>
    rw [ran'] at concur
    exact concur.2

theorem Ground.binds_first (ground : t.Ground st st') (lockstep : t.mode = .lockstep) : Binds t.functions st' st := by
  intro name function v found
  cases first : st.scopes.find? name with
  | none =>
    rw [ground.unbound lockstep name function first] at found
    cases found
  | some w => rw [← (ground.bound name function w first).2, found]

theorem hit_concurs (known : t.setting.code[label]? = some f) (joins : p.Joins st.heap st'.heap)
    (ties : List.Forall₂ p.Ties args args') (shown : st.heap.ShowAll args ts)
    (tells : Unfolding.All (t.care.tells t.setting · = true) ts) (ground : t.Ground st st')
    (lockstep : t.mode = .lockstep) (sound : t.Sound p.Right st') {memo : Memo} (cached : st'.memo = some memo)
    (enabled : memo.enabled = true) (found : memo.find? label (Memo.key st'.heap args') = some w) :
    Concur t.mode (fun v last w last' => ∃ q, t.Gives p st st' v last w last' q)
      ((careful t.care fuel base).activate f args t.setting st) (.ok w { st' with memo := some memo.hit }) := by
  rw [key_eq (joins.fits.showAll ts ties shown)] at found
  obtain ⟨tree, shows, still, settles⟩ := sound memo cached enabled label f ts w known tells found
  have value := settles fuel st args (ground.binds_first lockstep) ground.uncached joins.forest shown
  have hit (S : Nat → Nat → Prop) : t.Caches (p.retain S) { st' with memo := some memo.hit } := by
    rw [Caches, lockstep]
    rintro _ ⟨⟩ on label f ts v known tells found
    obtain ⟨tree, shows, still, settles⟩ := sound memo cached enabled label f ts v known tells found
    exact ⟨tree, shows, fun cell same live => still cell same (live.imp fun _ => And.left),
      settles.extend fun _ _ _ => id⟩
  have law := Beside.lawful (Care.fair t.setting)
  have leads : (besides t.setting).Leads () () (besides t.setting).Same ((careful t.care fuel base).activate f args)
      ((evaluators fuel).activate f args) :=
    .activate law (fun _ _ => trivial) ((careful_agree t.care t.setting fuel base).functionBody
      (Beside.closed (Care.fair t.setting)) law.strays f.name (Beside.body f.body))
  rcases Care.same_of_leads leads st with same | ⟨last, stopped⟩
  · rw [same]
    cases ran : (evaluators fuel).activate f args t.setting st with
    | ok v last =>
      rw [ran] at value
      obtain ⟨shown, since, uncached⟩ := value
      have fits : (p.retain fun cell _ => ¬t.care.Rests last.heap cell).Fits st.heap st'.heap := by
        refine joins.fits.retain fun outer outer' inner inner' around _ holds _ moving rests => moving ?_
        refine rests.within ?_
        rwa [Heap.Holds, since.heap.extends_.kept outer (joins.fits.known (joins.fits.pair around)).1]
      refine ⟨p.retain fun cell _ => ¬t.care.Rests last.heap cell, since,
        ⟨.refl joins.forest', rfl, rfl, rfl, by rw [cached]; rfl⟩, uncached, ⟨tree, shown, shows⟩, fun _ _ => id, fits,
        fun _ _ => And.left, ?_, hit _, ?_⟩
      · intro cell cell' live
        by_cases rests : t.care.Rests last.heap cell
        · exact Or.inr rests.stays
        · exact Or.inl ⟨live, rests⟩
      · exact fun returns => ⟨stillLeft_of_returns fits returns fun _ _ live => live.2,
          fun cell same live => still cell same (live.imp fun _ => And.left)⟩
    | error h last =>
      rw [ran] at value
      exact .of_exhausted value
  · rw [stopped]
    exact .of_exhausted trivial

theorem sound_store (fair : t.Fair) {S : Nat → Prop} (sound : t.Sound S st)
    (known : t.setting.code[label]? = some f) (tells : Unfolding.All (t.care.tells t.setting · = true) ts)
    (shown : st.heap.Shows v tree) (still : ∀ cell, v = .array cell → ¬S cell) (settles : t.Settles st f ts tree) :
    t.Sound S { st with memo := st.memo.map (·.store label (keyOf ts) v) } := by
  intro cache same enabled label' f' us w known' tells' found
  obtain ⟨memo, cached, rfl⟩ := Option.map_eq_some_iff.1 same
  simp only [Memo.find?, Memo.store, Std.HashMap.getElem?_insert, beq_iff_eq] at found
  split at found
  · next same =>
    cases found
    obtain ⟨rfl, keys⟩ := Prod.mk.inj same
    obtain rfl : f = f' := Option.some.inj (known.symm.trans known')
    have texts := congrArg (String.toList · ++ []) keys
    simp only [keyOf, String.toList_ofList] at texts
    obtain ⟨rfl, -⟩ :=
      Unfolding.listing_append_inj fair.tells tells tells' Unfolding.closes_nil Unfolding.closes_nil texts
    exact ⟨tree, shown, still, settles.extend fun _ _ _ => id⟩
  · obtain ⟨tree, shown, still, settles⟩ := sound memo cached enabled label' f' us w known' tells' found
    exact ⟨tree, shown, still, settles.extend fun _ _ _ => id⟩

/-- What the comparison needs of the first evaluators. Where the second run may
keep results, they are careful ones with some fuel. -/
structure Comparable (t : Trial) (inside : Nat → Evaluators) (ev' : Evaluators) : Prop where
  agrees : ∀ base, t.Agrees base (inside base) ev'
  steady : t.mode = .lockstep → ∃ fuel, inside = careful t.care fuel ∧ t.Steady fuel

variable {inside : Nat → Evaluators}

theorem store_concurs (fair : t.Fair) (steady : t.Steady fuel)
    (agrees : t.Agrees st.heap.cells.size (careful t.care fuel st.heap.cells.size) ev')
    (known : t.setting.code[label]? = some f) (joins : p.Joins st.heap st'.heap)
    (ties : List.Forall₂ p.Ties args args') (shown : st.heap.ShowAll args ts)
    (tells : Unfolding.All (t.care.tells t.setting · = true) ts) (length : args.length = f.params.length)
    (ground : t.Ground st st') (lockstep : t.mode = .lockstep) (caches : t.Caches p st') :
    Concur t.mode (fun v last w last' => t.care.Returns st last v → ∃ q, t.Gives p st st' v last w last' q)
      ((careful t.care fuel st.heap.cells.size).activate f args t.setting st)
      ((do
        let w ← ev'.activate f args'
        Run.memo (·.store label (Memo.key st'.heap args') w)
        Pure.pure w : Run Value) t.setting st') := by
  have concur := activate_concurs fair agrees known joins ties length ground caches
  cases ran : (careful t.care fuel st.heap.cells.size).activate f args t.setting st with
  | error h last =>
    cases ran' : ev'.activate f args' t.setting st' with
    | ok w last' =>
      rw [ran, ran'] at concur
      exact concur.elim .of_exhausted .of_failed
    | error h' last' =>
      rw [ran, ran'] at concur
      rw [Run.bind_error _ ran']
      exact concur
  | ok v last =>
    cases ran' : ev'.activate f args' t.setting st' with
    | error h' last' =>
      rw [ran, ran', lockstep] at concur
      exact nomatch concur.1
    | ok w last' =>
      rw [ran, ran'] at concur
      rw [Run.bind_ok _ ran', key_eq (joins.fits.showAll ts ties shown)]
      intro returns
      obtain ⟨q, gives⟩ := concur
      obtain ⟨tree, shows, shows'⟩ := gives.alike
      have settles := settles_of_ok fair steady known joins.forest shown length ground.uncached
        (fun name function v found => (ground.bound name function v found).1) ran shows
      have wider : Binds t.functions st last' := fun name function v found => by
        rw [gives.since'.scopes]
        exact (ground.bound name function v found).2
      have sound : t.Sound q.Right last' := by
        have caches := gives.caches
        rwa [Caches, lockstep] at caches
      have stored := sound_store fair sound known tells shows' (gives.still returns).2 (settles.extend wider)
      refine ⟨q, { gives with since' := ?_, caches := ?_ }⟩
      · exact { gives.since' with cache := Option.isNone_map.trans gives.since'.cache }
      · rwa [Caches, lockstep]

theorem called_concurs (fair : t.Fair) (comparable : t.Comparable inside ev')
    (known : t.setting.code[label]? = some f) (joins : p.Joins st.heap st'.heap)
    (ties : List.Forall₂ p.Ties args args') (shown : st.heap.ShowAll args ts)
    (tells : Unfolding.All (t.care.tells t.setting · = true) ts) (length : args.length = f.params.length)
    (ground : t.Ground st st') (caches : t.Caches p st')
    (shallow : ¬(0 < t.setting.maxCalls ∧ t.setting.maxCalls ≤ st'.calls)) :
    Concur t.mode (fun v last w last' => t.care.Returns st last v → ∃ q, t.Gives p st st' v last w last' q)
      ((inside st.heap.cells.size).activate f args t.setting st) (ev'.callFunction label f args' t.setting st') := by
  have length' : args'.length = f.params.length := ties.length_eq.symm.trans length
  have plain (uncached : st'.Uncached) :
      Concur t.mode (fun v last w last' => t.care.Returns st last v → ∃ q, t.Gives p st st' v last w last' q)
        ((inside st.heap.cells.size).activate f args t.setting st) (ev'.callFunction label f args' t.setting st') := by
    rw [Evaluators.callFunction_uncached uncached length' shallow]
    exact (activate_concurs fair (comparable.agrees _) known joins ties length ground caches).mono
      fun _ _ _ _ gives _ => gives
  cases mode : t.mode with
  | apart =>
    rw [mode] at plain
    have uncached := caches
    rw [Caches, mode] at uncached
    exact plain uncached
  | lockstep =>
    by_cases uncached : st'.Uncached
    · exact mode ▸ plain uncached
    · have sound := caches
      rw [Caches, mode] at sound
      simp only [State.Uncached, not_forall, Bool.not_eq_false] at uncached
      obtain ⟨memo, found, enabled⟩ := uncached
      obtain ⟨fuel, rfl, steady⟩ := comparable.steady mode
      rw [Evaluators.callFunction, if_neg (not_not.2 length'), if_neg shallow, found]
      simp only [enabled, Bool.not_true, Bool.false_eq_true, if_false]
      rw [← mode]
      cases hit : memo.find? label (Memo.key st'.heap args') with
      | some w =>
        exact (hit_concurs known joins ties shown tells ground mode sound found enabled hit).mono
          fun _ _ _ _ gives _ => gives
      | none =>
        exact store_concurs fair steady (comparable.agrees _) known joins ties shown tells length ground mode caches

theorem callFunction_concurs (fair : t.Fair) (comparable : t.Comparable inside ev')
    (known : t.setting.code[label]? = some f) (joins : p.Joins st.heap st'.heap)
    (ties : List.Forall₂ p.Ties args args') (shown : st.heap.ShowAll args ts)
    (tells : Unfolding.All (t.care.tells t.setting · = true) ts) (ground : t.Ground st st') (caches : t.Caches p st') :
    Concur t.mode (fun v last w last' => t.care.Returns st last v → ∃ q, t.Gives p st st' v last w last' q)
      ((inside st.heap.cells.size).callFunction label f args t.setting st)
      (ev'.callFunction label f args' t.setting st') := by
  by_cases length : args.length = f.params.length
  · by_cases deep : 0 < t.setting.maxCalls ∧ t.setting.maxCalls ≤ st.calls
    · rw [Evaluators.callFunction, if_neg (not_not.2 length), if_pos deep]
      exact .of_exhausted trivial
    · rw [Evaluators.callFunction_uncached ground.uncached length deep]
      by_cases deep' : 0 < t.setting.maxCalls ∧ t.setting.maxCalls ≤ st'.calls
      · rw [Evaluators.callFunction, if_neg (not_not.2 (ties.length_eq.symm.trans length)), if_pos deep']
        cases mode : t.mode with
        | apart => exact .of_exhausted_second rfl trivial
        | lockstep => exact absurd ((ground.inStep mode).1 ▸ deep') deep
      · exact called_concurs fair comparable known joins ties shown tells length ground caches deep'
  · rw [Evaluators.callFunction, Evaluators.callFunction.eq_def ev', if_pos length,
      if_pos (ties.length_eq ▸ length), ← ties.length_eq]
    exact ground.stopped _

theorem Related.called {site : Site} (related : t.Related p site st st')
    {result result' : EStateM.Result Halt State Value}
    (concur : Concur t.mode (fun v last w last' => t.care.Returns st last v → ∃ q, t.Gives p st st' v last w last' q)
      result result') :
    Concur t.mode (fun v last w last' => ∃ r, p ≤ r ∧ t.Related r site last last' ∧ r.Ties v w)
      (t.care.review st result) result' := by
  cases result with
  | error h last =>
    cases result' with
    | ok w last' => exact concur
    | error h' last' => exact concur
  | ok v last =>
    rw [Care.review]
    by_cases returns : t.care.Returns st last v
    · rw [if_pos returns]
      cases result' with
      | error h' last' => exact concur
      | ok w last' =>
        obtain ⟨q, gives⟩ := concur returns
        obtain ⟨still, still'⟩ := gives.still returns
        exact ⟨_, le_trans gives.le (Pairing.le_settled q _ _),
          related.returned gives.since gives.since' gives.uncached gives.le gives.fits gives.fewer gives.rest
            gives.caches fun _ => returns.made,
          Pairing.ties_settled gives.alike still still'⟩
    · rw [if_neg returns]
      exact .of_exhausted trivial

theorem invoke_leads (fair : t.Fair) (comparable : t.Comparable inside ev') {site : Site} {callee callee' : Value}
    (tied : p.Ties callee callee') (ties : List.Forall₂ p.Ties args args') :
    t.Leads p site site Pairing.Ties (t.care.invoke inside callee args) (ev'.invoke callee' args') := by
  cases tied with
  | array => exact .fault _ site site _
  | flat flat =>
    cases callee with
    | array cell => exact absurd rfl (flat cell)
    | function label name arity =>
      intro q le st st' related
      have ties := Pairing.ties_mono ties le
      unfold Care.invoke
      dsimp only
      by_cases tells : args.all (st.heap.all (t.care.tells t.setting) fun _ => true)
      · rw [if_pos tells]
        cases known : t.setting.code[label]? with
        | none =>
          simp only [Evaluators.invoke, known]
          exact related.ground.stopped _
        | some f =>
          have made : ∀ v ∈ args, st.heap.MadeOf (t.care.tells t.setting · = true) v := fun v member => by
            obtain ⟨within, -⟩ := related.joins.fits.known_values ties
            refine Heap.madeOf_of_allAt related.joins.forest.allocated ?_ (List.all_eq_true.1 tells v member)
            rintro cell rfl
            exact within cell member
          obtain ⟨ts, shown, all⟩ := Heap.exists_showAll_of_madeOf made
          simp only [Evaluators.invoke, known]
          exact related.called
            (callFunction_concurs fair comparable known related.joins ties shown all related.ground related.caches)
      · rw [if_neg tells]
        exact .of_exhausted trivial
    | native module name arity action =>
      cases action with
      | collect => exact fun _ _ _ _ _ => .of_exhausted trivial
      | length =>
        intro q le st st' related
        simp only [Care.invoke, Evaluators.invoke, ties.length_eq]
        split
        · exact related.ground.stopped _
        · have absent : ∀ cell, Value.absent ≠ .array cell := by rintro cell ⟨⟩
          exact Leads.read (fun r heap heap' more joins => Pairing.length_both joins
            (Pairing.headD_ties (Pairing.ties_mono ties more) absent)) q le st st' related
    | _ => exact .fault _ site site _

end Trial

end ScriptKernel
