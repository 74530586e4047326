import ScriptKernel.Proofs.Machine.PairedCalls

/-!
Expressions, statements and programs in two runs over heaps of their own, and the
fuel that ties them together. First runs without a cache are compared by their
values; with that, a run that keeps results is followed step by step. The
statements of a program run one after the other at top level, and the functions
that it declares become known on the way.
-/

namespace ScriptKernel

open Evaluators (Fueled)

namespace Trial

variable {t : Trial} {p : Pairing} {site : Site} {base fuel fuel' : Nat} {here ev' : Evaluators}

theorem eq_top_of_isTop {view : Outlook} (top : view.isTop) : view = .top := by
  cases view with
  | top => rfl
  | body => cases top

theorem host_leads (fair : t.Fair) (agrees : t.Agrees base here ev') (entered : site.base = base) {selector : String}
    {keys : List Key} {args : List Expr} (contained : (Expr.hostCall selector keys args).contained t.functions site.outlook) :
    t.Leads p site site Pairing.Ties (here.host selector keys args) (ev'.host selector keys args) := by
  rw [Expr.contained, Bool.and_eq_true] at contained
  have given : ∀ x ∈ args, (t.correspondence base).Reads site x :=
    fun x member => ⟨entered, Expr.allContained_iff.1 contained.2 x member⟩
  intro q le st st' related
  unfold Evaluators.host
  cases t.setting.capabilities.bind (·.first? keys) with
  | none => exact related.ground.stopped _
  | some found =>
    have all : t.Leads p site site (fun q => List.Forall₂ q.Ties) (here.all args) (ev'.all args) :=
      agrees.all (closed fair) given
    exact (all.bind fun r vs ws _ ties => .perform fair.host (eq_top_of_isTop contained.1) found.2 ties) q le st st' related

theorem stores (site : Site) :
    Correspondence.Agrees.Stores (t.correspondence site.base) site (t.care.store site.base) fun _ => id := by
  intro p cell cell' a a' array ties
  refine ⟨fun i => ?_, ?_⟩
  · exact Leads.storeCopy array.pair ties (fun v => Heap.adds_set i v) fun items tied => Pairing.ties_set items tied i
  · exact Leads.storeCopy array.pair ties Heap.adds_push Pairing.ties_push

theorem agrees_succ (fair : t.Fair) (comparable : t.Comparable (careful t.care fuel) (evaluators fuel'))
    (fueled : Fueled t.mode fuel fuel') (base : Nat) :
    t.Agrees base (careful t.care (fuel + 1) base) (evaluators (fuel' + 1)) := by
  have agrees := comparable.agrees base
  refine ⟨fun p site x reads => ?_, fun p (site : Site) s does => ?_⟩
  · change (t.correspondence base).Leads _ _ _ _ ((evaluators fuel').evalExpr x)
    rw [← Evaluators.exprVia_self]
    refine agrees.exprVia (closed fair) (fun _ _ _ _ _ tied ties => invoke_leads fair comparable tied ties) ?_ reads
    rintro selector keys args rfl
    exact host_leads fair agrees reads.1 reads.2
  · change (t.correspondence base).Runs _ _ s _ _ ((evaluators fuel').evalStmt fuel' s)
    rw [← Evaluators.stmtVia_self]
    obtain ⟨rfl, contained⟩ := does
    refine agrees.stmtVia (closed fair) fueled (stores site) ?_ ⟨rfl, contained⟩
    rintro q on rfl
    cases on with
    | true => exact Leads.halt (h := .outOfFuel) trivial
    | false => exact Leads.memoize (eq_top_of_isTop contained)

theorem agrees_exhausted : t.Agrees base (careful t.care 0 base) ev' := by
  refine ⟨fun _ _ _ _ => Leads.halt trivial, fun _ _ s _ => ?_⟩
  cases s <;> exact Leads.halt trivial

theorem careful_steady (fair : t.Fair) (fuel : Nat) : t.Steady fuel := by
  induction fuel with
  | zero => exact fun _ _ => agrees_exhausted
  | succ fuel ih =>
    intro fuel' base
    cases fuel' with
    | zero =>
      have exhausted {α : Type} {p : Pairing} {site site' : Site} {R : Pairing → α → α → Prop} {run : Run α} :
          t.byValue.Leads p site site' R run (Run.halt .outOfFuel) :=
        fun _ _ _ _ _ => .of_exhausted_second rfl trivial
      refine ⟨fun _ _ _ _ => exhausted, fun _ _ s _ => ?_⟩
      cases s <;> exact exhausted
    | succ fuel' => exact agrees_succ fair.byValue ⟨ih fuel', nofun⟩ (Or.inl rfl) base

theorem careful_agrees (fair : t.Fair) (le : fuel ≤ fuel') (base : Nat) :
    t.Agrees base (careful t.care fuel base) (evaluators fuel') := by
  induction fuel generalizing fuel' base with
  | zero => exact agrees_exhausted
  | succ fuel ih =>
    obtain ⟨fuel', rfl⟩ := Nat.exists_eq_add_of_lt le
    exact agrees_succ fair ⟨ih (by omega), fun _ => ⟨fuel, rfl, careful_steady fair fuel⟩⟩ (Or.inr (by omega)) base

end Trial

namespace Trial

variable {t : Trial} {p : Pairing} {site : Site} {st st' : State} {declared : List String} {label fuel fuel' : Nat}
  {f : Function}

abbrev Site.behindAll (site : Site) (declared : List String) : Site :=
  site.atPlace (.top declared [])

namespace Related

theorem declare (related : t.Related p (site.behindAll declared) st st') (known : t.setting.code[label]? = some f)
    (new : f.name ∉ declared) :
    t.Related p (site.behindAll (f.name :: declared))
      { st with scopes := st.scopes.set f.name (.function label f.name f.params.length) }
      { st' with scopes := st'.scopes.set f.name (.function label f.name f.params.length) } := by
  have declares : t.setting.Declares (.function label f.name f.params.length) :=
    ⟨label, f.name, f.params.length, f, rfl, known⟩
  obtain ⟨⟨own, globals⟩, heap, memo, calls, console⟩ := st
  obtain ⟨⟨own', globals'⟩, heap', memo', calls', console'⟩ := st'
  have scopes := related.scopes
  cases scopes with
  | top inner tied functions =>
    obtain ⟨sides, knows⟩ := inner
    cases knows
    cases sides
    have other {name : String} {v : Value} (named : name ∈ t.functions) (found : Scope.find? name globals = some v) :
        name ≠ f.name := ne_of_mem_of_not_mem (functions name named v found).1 new
    refine { related with
      caches := ?_
      ground := ⟨related.ground.uncached, ?_, related.ground.inStep, ?_⟩
      scopes := ?_ }
    · refine related.caches.keep rfl (fun name named v found => ?_) fun _ _ shown still => ⟨shown, still⟩
      rcases tied.find? name with ⟨-, absent⟩ | ⟨w, _, before, -, -⟩
      · cases absent.symm.trans found
      · exact (Scope.find?_set_ne (other named before) _ _).trans found
    · intro name named v found
      rcases Scope.of_find?_set found with ⟨rfl, rfl⟩ | before
      · refine ⟨declares, ?_⟩
        simp only [Scopes.set, Scopes.find?, Scopes.findIn, Scope.find?_set, if_pos]
      · obtain ⟨known, before'⟩ := related.ground.bound name named v before
        exact ⟨known, (Scope.find?_set_ne (other named before) _ _).trans before'⟩
    · intro lockstep name named absent
      simp only [Scopes.set, Scopes.find?, Scopes.findIn, Scope.find?_set] at absent ⊢
      split at absent
      next => cases absent
      next differ =>
        rw [if_neg differ]
        exact related.ground.unbound lockstep name named absent
    · refine .top (.nil p t.functions) (tied.set f.name (.flat (by rintro cell ⟨⟩))) fun name named v found => ?_
      rcases Scope.of_find?_set found with ⟨rfl, rfl⟩ | before
      · exact ⟨List.mem_cons_self, declares⟩
      · exact (functions name named v before).imp_left (List.mem_cons_of_mem _)

theorem anywhere (related : t.Related p (site.behindAll declared) st st') :
    t.Related p (site.behindAll t.functions) st st' := by
  refine { related with scopes := ?_ }
  have scopes := related.scopes
  revert scopes
  generalize st.scopes = s
  generalize st'.scopes = s'
  intro scopes
  cases scopes with
  | top inner tied functions =>
    exact .top inner tied fun name named v found => ⟨named, (functions name named v found).2⟩

end Related

namespace Leads

variable {α : Type} {R : Pairing → α → α → Prop} {run run' : Run α}

theorem anywhere (leads : t.Leads p (site.behindAll declared) (site.behindAll declared) R run run') :
    t.Leads p (site.behindAll declared) (site.behindAll t.functions) R run run' :=
  fun q le st st' related => (leads q le st st' related).mono
    fun _ _ _ _ ⟨r, further, after, holds⟩ => ⟨r, further, after.anywhere, holds⟩

theorem declare (known : t.setting.code[label]? = some f) (new : f.name ∉ declared)
    (enough : fuel ≤ fuel') (base : Nat) :
    t.Leads p (site.behindAll declared) (site.behindAll (f.name :: declared)) (fun _ c d => c = .normal ∧ d = .normal)
      ((careful t.care fuel base).stmt (.declare label f.name f.params f.body))
      ((evaluators fuel').stmt (.declare label f.name f.params f.body)) := by
  cases fuel with
  | zero => exact .halt trivial
  | succ fuel =>
    obtain ⟨fuel', rfl⟩ := Nat.exists_eq_add_of_lt enough
    exact fun q le st st' related => ⟨q, le_refl q, related.declare known new, rfl, rfl⟩

end Leads

theorem stmt_leads (fair : t.Fair) (enough : fuel ≤ fuel') {s : Stmt} (contained : s.contained t.functions .top) :
    t.Leads p (site.behindAll declared) (site.behindAll declared) ((t.correspondence site.base).Controls True)
      ((careful t.care fuel site.base).stmt s) ((evaluators fuel').stmt s) := by
  have runs := (careful_agrees fair enough site.base).stmt p (site.behindAll declared) s ⟨rfl, contained⟩
  cases s <;> exact runs

theorem runTop_leads (fair : t.Fair) (policy : StrayPolicy) (enough : fuel ≤ fuel') {source program : List Stmt}
    (contained : ∀ s ∈ source, s.containedTop t.functions) (loaded : ∀ s ∈ program, s.Loaded source t.setting.code)
    (distinct : ((declaredFunctions program).map (·.name)).Nodup)
    (known : ∀ f ∈ declaredFunctions program, f.name ∉ declared) :
    t.Leads p (site.behindAll declared) (site.behindAll t.functions) Pairing.Ties
      (runTop (careful t.care fuel site.base) policy program) (runTop (evaluators fuel') policy program) := by
  induction program generalizing p declared with
  | nil => exact (Leads.empty fair).anywhere
  | cons s rest ih =>
    rw [List.forall_mem_cons] at loaded
    by_cases declares : ∃ label name params body, s = .declare label name params body
    · obtain ⟨label, name, params, body, rfl⟩ := declares
      simp only [declaredFunctions, List.filterMap_cons, List.map_cons, List.nodup_cons,
        List.forall_mem_cons] at distinct known
      refine (Leads.declare loaded.1 known.1 enough site.base).bind fun q c d _ controls => ?_
      obtain ⟨rfl, rfl⟩ := controls
      refine ih loaded.2 distinct.2 fun f member => ?_
      refine List.not_mem_cons_of_ne_of_not_mem (fun same => distinct.1 ?_) (known.2 f member)
      exact List.mem_map.2 ⟨f, member, same⟩
    · have inside : s.contained t.functions .top := by
        cases s with
        | declare label name params body => exact absurd ⟨label, name, params, body, rfl⟩ declares
        | _ => exact contained _ loaded.1
      rw [declaredFunctions_cons_other declares] at distinct known
      have later (q : Pairing) : t.Leads q (site.behindAll declared) (site.behindAll t.functions) Pairing.Ties
          (runTop (careful t.care fuel site.base) policy rest) (runTop (evaluators fuel') policy rest) :=
        ih loaded.2 distinct known
      refine (stmt_leads fair enough inside).bind fun q c d _ controls => ?_
      cases controls with
      | normal => exact later q
      | returning ties => exact Leads.anywhere (.pure fun r le => ties.mono le)
      | breaking | continuing =>
        cases policy with
        | reject => exact .fault _ _ _ _
        | ignore => exact later q

end Trial

end ScriptKernel
