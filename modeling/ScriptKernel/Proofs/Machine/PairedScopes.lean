import ScriptKernel.Proofs.Machine.OwnScopes
import ScriptKernel.Proofs.Value.Pairing

/-!
Scopes side by side. They bind the same names in the same order, to values that
go together. Of a stack of them is also known which names each scope binds, and
that none of them binds a function.
-/

namespace ScriptKernel

variable {p q : Pairing} {functions names : List String} {name other : String} {v w : Value}

namespace Scope

theorem find?_set (name other : String) (v : Value) (scope : Scope) :
    find? other (set name v scope) = if other = name then some v else find? other scope := by
  split
  · next same =>
    subst same
    induction scope with
    | nil => simp [set, find?]
    | cons entry scope ih =>
      simp only [set]
      split
      · simp [find?]
      · next differ => rw [find?, if_neg differ, ih]
  · next differ => exact find?_set_ne differ v scope

theorem of_find?_set {scope : Scope} (found : find? other (set name v scope) = some w) :
    (other = name ∧ w = v) ∨ find? other scope = some w := by
  rw [find?_set] at found
  split at found
  next same => exact Or.inl ⟨same, (Option.some.inj found).symm⟩
  next => exact Or.inr found

abbrev Tied (p : Pairing) (scope scope' : Scope) : Prop :=
  List.Forall₂ (fun entry entry' => entry.1 = entry'.1 ∧ p.Ties entry.2 entry'.2) scope scope'

variable {scope scope' : Scope}

theorem Tied.mono (tied : Tied p scope scope') (le : p ≤ q) : Tied q scope scope' :=
  tied.imp fun _ _ entries => ⟨entries.1, entries.2.mono le⟩

theorem Tied.find? (tied : Tied p scope scope') (name : String) :
    (Scope.find? name scope = none ∧ Scope.find? name scope' = none) ∨
      ∃ v w, Scope.find? name scope = some v ∧ Scope.find? name scope' = some w ∧ p.Ties v w := by
  induction tied with
  | nil => exact Or.inl ⟨rfl, rfl⟩
  | @cons entry entry' _ _ first _ ih =>
    obtain ⟨bound, v⟩ := entry
    obtain ⟨bound', w⟩ := entry'
    obtain ⟨rfl, ties⟩ := first
    simp only [Scope.find?]
    by_cases here : bound = name
    · rw [if_pos here, if_pos here]
      exact Or.inr ⟨v, w, rfl, rfl, ties⟩
    · rw [if_neg here, if_neg here]
      exact ih

theorem Tied.binds_eq (tied : Tied p scope scope') (name : String) : binds name scope' = binds name scope := by
  rw [binds, binds]
  rcases tied.find? name with ⟨absent, absent'⟩ | ⟨v, w, found, found', -⟩
  · rw [absent, absent']
  · rw [found, found']
    rfl

theorem Tied.set (tied : Tied p scope scope') (name : String) (ties : p.Ties v w) :
    Tied p (Scope.set name v scope) (Scope.set name w scope') := by
  induction tied with
  | nil => exact .cons ⟨rfl, ties⟩ .nil
  | @cons entry entry' _ _ first rest ih =>
    obtain ⟨bound, x⟩ := entry
    obtain ⟨bound', y⟩ := entry'
    obtain ⟨rfl, old⟩ := first
    simp only [Scope.set]
    by_cases here : bound = name
    · rw [if_pos here, if_pos here]
      exact .cons ⟨rfl, ties⟩ rest
    · rw [if_neg here, if_neg here]
      exact .cons ⟨rfl, old⟩ ih

structure Knows (functions names : List String) (scope : Scope) : Prop where
  binds : ∀ name ∈ names, Scope.binds name scope
  free : ∀ name ∈ functions, Scope.find? name scope = none

theorem Knows.nil (functions : List String) : Knows functions [] [] :=
  ⟨nofun, fun _ _ => rfl⟩

theorem Knows.mono {fewer : List String} (knows : Knows functions names scope) (sub : fewer ⊆ names) :
    Knows functions fewer scope :=
  ⟨fun name member => knows.binds name (sub member), knows.free⟩

theorem Knows.set (knows : Knows functions names scope) (plain : name ∉ functions) (v : Value) :
    Knows functions (name :: names) (Scope.set name v scope) := by
  refine ⟨?_, ?_⟩
  · intro other member
    rw [binds_set]
    exact (List.mem_cons.1 member).imp_right (knows.binds other)
  · intro other function
    rw [find?_set_ne (ne_of_mem_of_not_mem function plain)]
    exact knows.free other function

end Scope

namespace Scopes

variable {scope : Scope} {below own : List Scope}

theorem unwind_innermost {s last : Scopes} (inner : last.inner = scope :: below)
    (size : below.length = s.inner.length) : last.unwind s.depth = { last with inner := below } := by
  have surplus : (scope :: below).length - (s.depth - 1) = 1 := by simp [depth, size]
  simp only [unwind, inner, surplus, List.drop_one, List.tail_cons]

theorem unwind_topped_cons (s : Scopes) (size : below.length = own.length) :
    (s.topped (scope :: below)).unwind (s.topped own).depth = s.topped below :=
  unwind_innermost rfl (by simp [topped, size])

end Scopes

/-- Two stacks of scopes side by side, with the names known in each. -/
structure Stacks (p : Pairing) (functions : List String) (known : List (List String)) (own own' : List Scope) :
    Prop where
  tied : List.Forall₂ (Scope.Tied p) own own'
  knows : List.Forall₂ (Scope.Knows functions) known own

namespace Stacks

open Scopes (findIn assignIn)

variable {known : List (List String)} {own own' : List Scope}

theorem mono (sides : Stacks p functions known own own') (le : p ≤ q) : Stacks q functions known own own' :=
  ⟨sides.tied.imp fun _ _ tied => Scope.Tied.mono tied le, sides.knows⟩

theorem nil (p : Pairing) (functions : List String) : Stacks p functions [] [] [] :=
  ⟨.nil, .nil⟩

theorem cons {scope scope' : Scope} (tied : Scope.Tied p scope scope') (knows : Scope.Knows functions names scope)
    (sides : Stacks p functions known own own') :
    Stacks p functions (names :: known) (scope :: own) (scope' :: own') :=
  ⟨.cons tied sides.tied, .cons knows sides.knows⟩

theorem uncons (sides : Stacks p functions (names :: known) own own') :
    ∃ scope scope' below below', own = scope :: below ∧ own' = scope' :: below' ∧ Scope.Tied p scope scope' ∧
      Scope.Knows functions names scope ∧ Stacks p functions known below below' := by
  obtain ⟨tied, knows⟩ := sides
  cases knows with
  | cons knows others =>
    cases tied with
    | cons first rest => exact ⟨_, _, _, _, rfl, rfl, first, knows, rest, others⟩

theorem length_eq (sides : Stacks p functions known own own') :
    own.length = known.length ∧ own'.length = known.length :=
  ⟨sides.knows.length_eq.symm, sides.tied.length_eq.symm.trans sides.knows.length_eq.symm⟩

theorem enter (sides : Stacks p functions known own own') :
    Stacks p functions ([] :: known) ([] :: own) ([] :: own') :=
  sides.cons .nil (.nil functions)

theorem function_unbound (sides : Stacks p functions known own own') (function : name ∈ functions) :
    findIn name own = none := by
  obtain ⟨-, knows⟩ := sides
  induction knows with
  | nil => rfl
  | cons first _ ih => simp only [findIn, first.free name function, ih]

theorem findIn_tied (tied : List.Forall₂ (Scope.Tied p) own own') (name : String) :
    (findIn name own = none ∧ findIn name own' = none) ∨
      ∃ v w, findIn name own = some v ∧ findIn name own' = some w ∧ p.Ties v w := by
  induction tied with
  | nil => exact Or.inl ⟨rfl, rfl⟩
  | cons first _ ih =>
    simp only [findIn]
    rcases first.find? name with ⟨absent, absent'⟩ | ⟨v, w, found, found', ties⟩
    · rw [absent, absent']
      exact ih
    · rw [found, found']
      exact Or.inr ⟨v, w, rfl, rfl, ties⟩

theorem function_unbound' (sides : Stacks p functions known own own') (function : name ∈ functions) :
    findIn name own' = none := by
  rcases findIn_tied sides.tied name with ⟨-, absent'⟩ | ⟨v, w, found, -⟩
  · exact absent'
  · rw [sides.function_unbound function] at found
    cases found

theorem known_bound (sides : Stacks p functions known own own') (member : name ∈ known.flatten) :
    ∃ v w, findIn name own = some v ∧ findIn name own' = some w ∧ p.Ties v w := by
  rcases findIn_tied sides.tied name with ⟨absent, -⟩ | bound
  · obtain ⟨-, knows⟩ := sides
    exfalso
    induction knows with
    | nil => cases member
    | @cons names scope _ _ first _ ih =>
      simp only [findIn] at absent
      split at absent
      · cases absent
      next free =>
        rw [List.flatten_cons, List.mem_append] at member
        refine ih (member.resolve_left fun inside => ?_) absent
        have bound := first.binds name inside
        rw [Scope.binds, free] at bound
        cases bound
  · exact bound

theorem assignIn_tied (tied : List.Forall₂ (Scope.Tied p) own own') (name : String) (ties : p.Ties v w) :
    (assignIn name v own = none ∧ assignIn name w own' = none) ∨
      ∃ rebound rebound', assignIn name v own = some rebound ∧ assignIn name w own' = some rebound' ∧
        List.Forall₂ (Scope.Tied p) rebound rebound' := by
  induction tied with
  | nil => exact Or.inl ⟨rfl, rfl⟩
  | @cons scope scope' own own' first rest ih =>
    simp only [assignIn, first.binds_eq name]
    by_cases here : Scope.binds name scope
    · rw [if_pos here, if_pos here]
      exact Or.inr ⟨_, _, rfl, rfl, .cons (first.set name ties) rest⟩
    · rw [if_neg here, if_neg here]
      rcases ih with ⟨absent, absent'⟩ | ⟨rebound, rebound', located, located', after⟩
      · rw [absent, absent']
        exact Or.inl ⟨rfl, rfl⟩
      · rw [located, located']
        exact Or.inr ⟨_, _, rfl, rfl, .cons first after⟩

theorem assignIn_knows (knows : List.Forall₂ (Scope.Knows functions) known own) (plain : name ∉ functions)
    {rebound : List Scope} (located : assignIn name v own = some rebound) :
    List.Forall₂ (Scope.Knows functions) known rebound := by
  induction knows generalizing rebound with
  | nil => cases located
  | @cons names scope _ _ first rest ih =>
    simp only [assignIn] at located
    split at located
    · cases located
      exact .cons ((first.set plain v).mono (List.subset_cons_self name names)) rest
    · obtain ⟨later, found, rfl⟩ := Option.map_eq_some_iff.1 located
      exact .cons first (ih found)

end Stacks

end ScriptKernel
