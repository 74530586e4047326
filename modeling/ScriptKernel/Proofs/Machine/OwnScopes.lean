import Mathlib.Data.List.Forall2
import ScriptKernel.Proofs.Machine.CacheKeys
import ScriptKernel.Proofs.Machine.ScopeNames

/-!
The scopes that the code of a pure function works on: a stack of its own on
top of whatever its caller left. They hold scalars under names that no function
has, and each of them binds at least the names known to be defined in it.
-/

namespace ScriptKernel

namespace Scope

theorem mem_of_find? {name : String} {v : Value} {scope : Scope} (found : find? name scope = some v) :
    (name, v) ∈ scope := by
  induction scope with
  | nil => cases found
  | cons entry scope ih =>
    obtain ⟨other, w⟩ := entry
    simp only [find?] at found
    split at found
    · next same =>
      cases found
      exact same ▸ List.mem_cons_self
    · exact List.mem_cons_of_mem _ (ih found)

theorem mem_set {name : String} {v : Value} {scope : Scope} {entry : String × Value}
    (member : entry ∈ set name v scope) : entry = (name, v) ∨ entry ∈ scope := by
  induction scope with
  | nil => exact Or.inl (List.mem_singleton.1 member)
  | cons first scope ih =>
    obtain ⟨other, w⟩ := first
    simp only [set] at member
    split at member
    · exact (List.mem_cons.1 member).imp_right (List.mem_cons_of_mem _)
    · rcases List.mem_cons.1 member with rfl | later
      · exact Or.inr List.mem_cons_self
      · exact (ih later).imp_right (List.mem_cons_of_mem _)

theorem find?_set_ne {name other : String} (differ : other ≠ name) (v : Value) (scope : Scope) :
    find? other (set name v scope) = find? other scope := by
  induction scope with
  | nil => simp [set, find?, differ.symm]
  | cons entry scope ih =>
    obtain ⟨bound, w⟩ := entry
    simp only [set]
    split
    · next same =>
      subst same
      simp [find?, differ.symm]
    · simp only [find?, ih]

structure Holds (functions known : List String) (scope : Scope) : Prop where
  plain : ∀ name v, (name, v) ∈ scope → name ∉ functions ∧ v.Scalar
  binds : ∀ name ∈ known, Scope.binds name scope

namespace Holds

variable {functions known : List String} {scope : Scope}

theorem nil (functions : List String) : Holds functions [] [] :=
  ⟨nofun, nofun⟩

theorem mono {fewer : List String} (holds : Holds functions known scope) (sub : fewer ⊆ known) :
    Holds functions fewer scope :=
  ⟨holds.plain, fun name member => holds.binds name (sub member)⟩

theorem set {name : String} {v : Value} (holds : Holds functions known scope)
    (plain : name ∉ functions) (scalar : v.Scalar) :
    Holds functions (name :: known) (Scope.set name v scope) := by
  refine ⟨?_, ?_⟩
  · intro other w member
    rcases mem_set member with same | old
    · cases same
      exact ⟨plain, scalar⟩
    · exact holds.plain other w old
  · intro other member
    rw [binds_set]
    exact (List.mem_cons.1 member).imp_right (holds.binds other)

theorem function_unbound {name : String} (holds : Holds functions known scope)
    (function : name ∈ functions) : find? name scope = none := by
  cases found : find? name scope with
  | none => rfl
  | some v => exact absurd function (holds.plain name v (mem_of_find? found)).1

end Holds

end Scope

namespace Scopes

def topped (own : List Scope) (s : Scopes) : Scopes :=
  { s with inner := own ++ s.inner }

theorem findIn_append (name : String) (own inner : List Scope) :
    findIn name (own ++ inner) = (findIn name own).or (findIn name inner) := by
  induction own with
  | nil => rfl
  | cons scope own ih =>
    simp only [List.cons_append, findIn]
    cases Scope.find? name scope with
    | none => exact ih
    | some v => rfl

theorem unwind_topped (own : List Scope) (s : Scopes) : (s.topped own).unwind s.depth = s := by
  have surplus : (own ++ s.inner).length - (s.depth - 1) = own.length := by
    simp [depth]
  simp only [unwind, topped, surplus, List.drop_left]

end Scopes

/-- A stack of scopes, each with the names known in it. -/
abbrev OwnScopes (functions : List String) (known : List (List String)) (own : List Scope) : Prop :=
  List.Forall₂ (Scope.Holds functions) known own

namespace OwnScopes

open Scopes (findIn assignIn)

variable {functions : List String} {known : List (List String)} {own : List Scope} {name : String}

theorem enter (holds : OwnScopes functions known own) :
    OwnScopes functions ([] :: known) ([] :: own) :=
  .cons (.nil functions) holds

theorem function_unbound (holds : OwnScopes functions known own) (function : name ∈ functions) :
    findIn name own = none := by
  induction holds with
  | nil => rfl
  | cons first _ ih => simp only [findIn, first.function_unbound function, ih]

theorem scalar_of_findIn {v : Value} (holds : OwnScopes functions known own)
    (found : findIn name own = some v) : name ∉ functions ∧ v.Scalar := by
  induction holds with
  | nil => cases found
  | @cons names scope _ _ first _ ih =>
    simp only [findIn] at found
    cases here : Scope.find? name scope with
    | none =>
      rw [here] at found
      exact ih found
    | some w =>
      rw [here] at found
      cases found
      exact first.plain name v (Scope.mem_of_find? here)

theorem known_bound (holds : OwnScopes functions known own) (member : name ∈ known.flatten) :
    ∃ v, findIn name own = some v := by
  induction holds with
  | nil => cases member
  | @cons names scope _ _ first _ ih =>
    simp only [findIn]
    cases here : Scope.find? name scope with
    | some v => exact ⟨v, rfl⟩
    | none =>
      rw [List.flatten_cons, List.mem_append] at member
      refine ih (member.resolve_left fun inside => ?_)
      have bound := first.binds name inside
      rw [Scope.binds, here] at bound
      cases bound

theorem assignIn_isSome {v w : Value} (found : findIn name own = some w) :
    ∃ rebound, assignIn name v own = some rebound := by
  induction own with
  | nil => cases found
  | cons scope own ih =>
    simp only [findIn] at found
    simp only [assignIn]
    split
    · exact ⟨_, rfl⟩
    · next absent =>
      rw [Scope.binds, Bool.not_eq_true, Option.isSome_eq_false_iff, Option.isNone_iff_eq_none] at absent
      rw [absent] at found
      obtain ⟨rebound, located⟩ := ih found
      exact ⟨scope :: rebound, by rw [located]; rfl⟩

theorem assignIn_append {v : Value} {inner rebound : List Scope}
    (located : assignIn name v own = some rebound) :
    assignIn name v (own ++ inner) = some (rebound ++ inner) := by
  induction own generalizing rebound with
  | nil => cases located
  | cons scope own ih =>
    simp only [List.cons_append, assignIn] at located ⊢
    split at located
    · next here =>
      cases located
      rw [if_pos here]
      rfl
    · next absent =>
      obtain ⟨later, found, rfl⟩ := Option.map_eq_some_iff.1 located
      rw [if_neg absent, ih found]
      rfl

theorem assignIn_holds {v : Value} {rebound : List Scope} (holds : OwnScopes functions known own)
    (plain : name ∉ functions) (scalar : v.Scalar) (located : assignIn name v own = some rebound) :
    OwnScopes functions known rebound := by
  induction holds generalizing rebound with
  | nil => cases located
  | @cons names scope _ _ first rest ih =>
    simp only [assignIn] at located
    split at located
    · cases located
      exact .cons ((first.set plain scalar).mono (List.subset_cons_self name names)) rest
    · obtain ⟨later, found, rfl⟩ := Option.map_eq_some_iff.1 located
      exact .cons first (ih found)

end OwnScopes

end ScriptKernel
