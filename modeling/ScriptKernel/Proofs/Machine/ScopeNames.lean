import ScriptKernel.Machine.Scopes

/-!
Which names the scopes of a stack bind. Scopes are counted from the global one
up, so that entering and leaving a scope moves no other scope. One relation
says how the names of a stack may grow while a part of a program runs.
-/

namespace ScriptKernel

namespace Scope

theorem binds_set (name other : String) (v : Value) (scope : Scope) :
    binds other (set name v scope) ↔ other = name ∨ binds other scope := by
  induction scope with
  | nil => simp [set, binds, find?, @eq_comm _ name other]
  | cons entry scope ih =>
    obtain ⟨bound, w⟩ := entry
    simp only [binds] at ih ⊢
    by_cases same : bound = name
    · subst same
      by_cases hit : bound = other
      · simp [set, find?, hit]
      · simp [set, find?, hit, Ne.symm hit]
    · by_cases hit : bound = other
      · simp [set, find?, same, ← hit]
      · simp [set, find?, same, hit, ih]

def names (scope : Scope) : List String :=
  scope.map Prod.fst

theorem binds_iff_mem_names (name : String) (scope : Scope) :
    binds name scope ↔ name ∈ names scope := by
  induction scope with
  | nil => simp [binds, find?, names]
  | cons entry scope ih =>
    obtain ⟨bound, w⟩ := entry
    simp only [binds, names] at ih ⊢
    by_cases hit : bound = name
    · simp [find?, hit]
    · simp [find?, hit, Ne.symm hit, ih]

theorem names_set_of_binds {name : String} {scope : Scope} (bound : binds name scope) (v : Value) :
    names (set name v scope) = names scope := by
  induction scope with
  | nil => simp [binds, find?] at bound
  | cons entry scope ih =>
    obtain ⟨other, w⟩ := entry
    by_cases hit : other = name
    · simp [set, names, hit]
    · have below : binds name scope := by simpa [binds, find?, hit] using bound
      simpa [set, names, hit] using ih below

end Scope

namespace Scopes

def at? (s : Scopes) (level : Nat) : Option Scope :=
  (s.globals :: s.inner.reverse)[level]?

/-- Whether the scope at a level exists and binds the name. -/
def BindsAt (s : Scopes) (level : Nat) (name : String) : Prop :=
  ∃ scope, s.at? level = some scope ∧ Scope.binds name scope

theorem BindsAt.lt_depth {s : Scopes} {level : Nat} {name : String} (bound : s.BindsAt level name) :
    level < s.depth := by
  obtain ⟨scope, located, _⟩ := bound
  have inside := (List.getElem?_eq_some_iff.mp located).1
  simpa [depth] using inside

@[simp] theorem depth_push (s : Scopes) : s.push.depth = s.depth + 1 := rfl

theorem depth_unwind (s : Scopes) (d : Nat) (least : 1 ≤ d) (most : d ≤ s.depth) :
    (s.unwind d).depth = d := by
  simp only [depth, unwind, List.length_drop] at most ⊢
  omega

@[simp] theorem depth_set (name : String) (v : Value) (s : Scopes) :
    (s.set name v).depth = s.depth := by
  obtain ⟨inner, globals⟩ := s
  cases inner <;> rfl

@[simp] theorem bindsAt_push (s : Scopes) (level : Nat) (name : String) :
    s.push.BindsAt level name ↔ s.BindsAt level name := by
  have levels : s.push.globals :: s.push.inner.reverse = (s.globals :: s.inner.reverse) ++ [[]] := by
    simp [push]
  simp only [BindsAt, at?, levels, List.getElem?_append]
  split
  · rfl
  · next outside =>
    have absent : (s.globals :: s.inner.reverse)[level]? = none :=
      List.getElem?_eq_none (Nat.not_lt.mp outside)
    rw [absent]
    constructor
    · rintro ⟨scope, located, bound⟩
      have empty : scope = [] := by
        simpa using List.mem_of_getElem? located
      simp [empty, Scope.binds, Scope.find?] at bound
    · rintro ⟨scope, located, _⟩
      cases located

theorem bindsAt_unwind (s : Scopes) (d level : Nat) (name : String) (least : 1 ≤ d)
    (most : d ≤ s.depth) :
    (s.unwind d).BindsAt level name ↔ level < d ∧ s.BindsAt level name := by
  have levels : (s.unwind d).globals :: (s.unwind d).inner.reverse =
      (s.globals :: s.inner.reverse).take d := by
    obtain ⟨below, rfl⟩ : ∃ below, d = below + 1 := ⟨d - 1, by omega⟩
    have bounded : below ≤ s.inner.length := by simpa [depth] using most
    simp only [unwind, List.take_succ_cons, List.cons.injEq, true_and, Nat.add_sub_cancel]
    rw [List.reverse_drop, Nat.sub_sub_self bounded]
  simp only [BindsAt, at?, levels, List.getElem?_take]
  split
  · next below => simp [below]
  · next above => simp [above]

theorem bindsAt_set (name other : String) (v : Value) (s : Scopes) (level : Nat) :
    (s.set name v).BindsAt level other ↔
      s.BindsAt level other ∨ (level + 1 = s.depth ∧ other = name) := by
  obtain ⟨inner, globals⟩ := s
  cases inner with
  | nil =>
    cases level <;> simp [BindsAt, at?, set, depth, Scope.binds_set, or_comm]
  | cons scope outer =>
    have levels (top : Scope) : (⟨top :: outer, globals⟩ : Scopes).globals ::
        (⟨top :: outer, globals⟩ : Scopes).inner.reverse = (globals :: outer.reverse) ++ [top] := by
      simp
    simp only [BindsAt, at?, set, levels, List.getElem?_append, depth, List.length_cons,
      List.length_reverse]
    by_cases below : level < outer.length + 1
    · simp [below, Nat.ne_of_lt below]
    · by_cases innermost : level = outer.length + 1
      · simp [innermost, Scope.binds_set, or_comm]
      · have beyond : 1 ≤ level - (outer.length + 1) := by omega
        simp [below, innermost, List.getElem?_eq_none, beyond]

theorem names_assignIn {name : String} {v : Value} {scopes rebound : List Scope}
    (found : assignIn name v scopes = some rebound) :
    rebound.map Scope.names = scopes.map Scope.names := by
  induction scopes generalizing rebound with
  | nil => cases found
  | cons scope outer ih =>
    simp only [assignIn] at found
    split at found
    · next bound =>
      cases found
      simp [Scope.names_set_of_binds bound]
    · obtain ⟨below, located, rfl⟩ := Option.map_eq_some_iff.mp found
      simp [ih located]

theorem names_assign? {name : String} {v : Value} {s t : Scopes} (found : s.assign? name v = some t) :
    Scope.names t.globals = Scope.names s.globals ∧
      t.inner.map Scope.names = s.inner.map Scope.names := by
  simp only [assign?] at found
  split at found
  · next inner located =>
    cases found
    exact ⟨rfl, names_assignIn located⟩
  · split at found
    · next bound =>
      cases found
      exact ⟨Scope.names_set_of_binds bound v, rfl⟩
    · cases found

theorem bindsAt_iff_names (s : Scopes) (level : Nat) (name : String) :
    s.BindsAt level name ↔
      ∃ names, (Scope.names s.globals :: (s.inner.map Scope.names).reverse)[level]? = some names ∧
        name ∈ names := by
  have levels : Scope.names s.globals :: (s.inner.map Scope.names).reverse =
      (s.globals :: s.inner.reverse).map Scope.names := by
    simp
  simp only [levels, List.getElem?_map, Option.map_eq_some_iff, BindsAt, at?,
    Scope.binds_iff_mem_names]
  constructor
  · rintro ⟨scope, located, member⟩
    exact ⟨scope.names, ⟨scope, located, rfl⟩, member⟩
  · rintro ⟨_, ⟨scope, located, rfl⟩, member⟩
    exact ⟨scope, located, member⟩

/-- How the scopes may change while a part of a program runs: none comes or
goes, none loses a name, and only the innermost one gains names, which are
among the new ones. -/
structure Grow (new : List String) (before after : Scopes) : Prop where
  depth_eq : after.depth = before.depth
  kept : ∀ level name, before.BindsAt level name → after.BindsAt level name
  gained : ∀ level name, after.BindsAt level name →
    before.BindsAt level name ∨ (level + 1 = before.depth ∧ name ∈ new)

namespace Grow

variable {new : List String} {s t u : Scopes}

theorem refl (new : List String) (s : Scopes) : s.Grow new s :=
  ⟨rfl, fun _ _ => id, fun _ _ => Or.inl⟩

theorem trans (first : s.Grow new t) (second : t.Grow new u) : s.Grow new u := by
  refine ⟨second.depth_eq.trans first.depth_eq,
    fun level name bound => second.kept level name (first.kept level name bound), ?_⟩
  intro level name bound
  obtain old | ⟨innermost, member⟩ := second.gained level name bound
  · exact first.gained level name old
  · exact Or.inr ⟨by rw [innermost, first.depth_eq], member⟩

theorem mono {wider : List String} (grow : s.Grow new t) (sub : new ⊆ wider) : s.Grow wider t := by
  refine ⟨grow.depth_eq, grow.kept, ?_⟩
  intro level name bound
  obtain old | ⟨innermost, member⟩ := grow.gained level name bound
  · exact Or.inl old
  · exact Or.inr ⟨innermost, sub member⟩

theorem of_nil (grow : s.Grow [] t) : s.Grow new t :=
  grow.mono (List.nil_subset new)

theorem set (name : String) (v : Value) (s : Scopes) : s.Grow [name] (s.set name v) := by
  refine ⟨depth_set name v s, ?_, ?_⟩
  · intro level other bound
    exact (bindsAt_set name other v s level).mpr (Or.inl bound)
  · intro level other bound
    obtain old | ⟨innermost, rfl⟩ := (bindsAt_set name other v s level).mp bound
    · exact Or.inl old
    · exact Or.inr ⟨innermost, List.mem_singleton.mpr rfl⟩

theorem assign {name : String} {v : Value} (found : s.assign? name v = some t) : s.Grow [] t := by
  obtain ⟨globals, inner⟩ := names_assign? found
  have same (level : Nat) (other : String) : t.BindsAt level other ↔ s.BindsAt level other := by
    rw [bindsAt_iff_names, bindsAt_iff_names, globals, inner]
  have length : t.inner.length = s.inner.length := by
    simpa using congrArg List.length inner
  exact ⟨by simp [depth, length], fun level other => (same level other).mpr,
    fun level other bound => Or.inl ((same level other).mp bound)⟩

theorem assignOrSet (name : String) (v : Value) (s : Scopes) :
    s.Grow [name] (s.assignOrSet name v) := by
  unfold Scopes.assignOrSet
  cases found : s.assign? name v with
  | none => exact set name v s
  | some t => exact of_nil (assign found)

theorem unwind_push (prepared : s.push.Grow new t) : s.Grow [] (t.unwind s.depth) := by
  have least : 1 ≤ s.depth := Nat.le_add_left 1 s.inner.length
  have most : s.depth ≤ t.depth := by
    rw [prepared.depth_eq, depth_push]
    exact Nat.le_succ s.depth
  refine ⟨depth_unwind t s.depth least most, ?_, ?_⟩
  · intro level name bound
    rw [bindsAt_unwind t s.depth level name least most]
    exact ⟨bound.lt_depth, prepared.kept level name ((bindsAt_push s level name).mpr bound)⟩
  · intro level name bound
    obtain ⟨below, bound⟩ := (bindsAt_unwind t s.depth level name least most).mp bound
    obtain old | ⟨innermost, _⟩ := prepared.gained level name bound
    · exact Or.inl ((bindsAt_push s level name).mp old)
    · rw [depth_push] at innermost
      omega

end Grow

end Scopes

end ScriptKernel
