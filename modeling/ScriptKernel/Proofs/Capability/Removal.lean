import Mathlib.Data.List.Basic
import ScriptKernel.Capability.Registry

/-!
What is left in a registry. Denying a list of selectors takes away what they
stand for and nothing else, so a call finds the same capability as before
unless the one that it found is denied.
-/

namespace ScriptKernel

/-- The selector can be read and stands for the key. -/
def Selector.covers (selector : String) (key : Key) : Bool :=
  match Selector.parse selector with
  | .ok keys => keys.contains key
  | .error _ => false

/-- One of the selectors stands for the key. -/
def denies (selectors : List String) (key : Key) : Bool :=
  selectors.any (Selector.covers · key)

namespace Registry

variable {r : Registry} {key other : Key} {keys : List Key} {capability : Capability} {selectors : List String}

theorem lookup_filter_ne {β : Type} (key other : Key) (entries : List (Key × β)) :
    (entries.filter (·.1 ≠ key)).lookup other = if other = key then none else entries.lookup other := by
  induction entries with
  | nil => simp
  | cons entry entries ih =>
    obtain ⟨name, b⟩ := entry
    by_cases removed : name = key
    · subst removed
      rw [List.filter_cons_of_neg (by simp), ih]
      by_cases same : other = name
      · rw [if_pos same, if_pos same]
      · have differs : (other == name) = false := by simpa using same
        rw [if_neg same, if_neg same, List.lookup_cons, differs]
    · rw [List.filter_cons_of_pos (by simpa using removed), List.lookup_cons, List.lookup_cons, ih]
      cases same : other == name with
      | true =>
        obtain rfl : other = name := by simpa using same
        simp [removed]
      | false => rfl

theorem find?_remove (r : Registry) (key other : Key) :
    (r.remove key).find? other = if other = key then none else r.find? other :=
  lookup_filter_ne key other r.entries

theorem find?_removeAll (r : Registry) (keys : List Key) (key : Key) :
    (keys.foldl remove r).find? key = if key ∈ keys then none else r.find? key := by
  induction keys generalizing r with
  | nil => simp
  | cons first keys ih =>
    rw [List.foldl_cons, ih, find?_remove]
    by_cases here : key = first
    · simp [here]
    · by_cases later : key ∈ keys
      · simp [later]
      · simp [here, later]

theorem find?_denyOne (r : Registry) (selector : String) (key : Key) :
    (r.denyOne selector).find? key = if Selector.covers selector key then none else r.find? key := by
  unfold denyOne Selector.covers
  cases Selector.parse selector with
  | error e => rfl
  | ok keys =>
    simp only [List.contains_iff_mem]
    exact find?_removeAll r keys key

theorem find?_deny (r : Registry) (selectors : List String) (key : Key) :
    (r.deny selectors).find? key = if denies selectors key then none else r.find? key := by
  induction selectors generalizing r with
  | nil => rfl
  | cons selector selectors ih =>
    have step : (r.deny (selector :: selectors)).find? key =
        if denies selectors key then none else (r.denyOne selector).find? key := ih (r.denyOne selector)
    rw [step, find?_denyOne, denies, denies, List.any_cons]
    cases Selector.covers selector key with
    | true => simp
    | false => simp

theorem find?_of_first? (found : r.first? keys = some (key, capability)) : r.find? key = some capability := by
  induction keys with
  | nil => cases found
  | cons first keys ih =>
    rw [first?] at found
    cases here : r.find? first with
    | some c =>
      rw [here] at found
      cases found
      exact here
    | none =>
      rw [here] at found
      exact ih found

theorem first?_deny (found : (r.deny selectors).first? keys = some (key, capability)) :
    denies selectors key = false := by
  have kept := find?_of_first? found
  rw [find?_deny] at kept
  cases denied : denies selectors key with
  | false => rfl
  | true =>
    rw [denied] at kept
    cases kept

theorem first?_deny_eq (allowed : ∀ key capability, r.first? keys = some (key, capability) → denies selectors key = false) :
    (r.deny selectors).first? keys = r.first? keys := by
  induction keys with
  | nil => rfl
  | cons first keys ih =>
    rw [first?, first?, find?_deny]
    cases here : r.find? first with
    | some c =>
      have kept : denies selectors first = false := by
        apply allowed first c
        rw [first?, here]
      rw [kept]
      rfl
    | none =>
      have same : (r.deny selectors).first? keys = r.first? keys := by
        apply ih
        intro key capability found
        apply allowed key capability
        rw [first?, here]
        exact found
      rw [ite_self]
      exact same

theorem find?_register (r : Registry) (key : Key) (capability : Capability) (other : Key) :
    (r.register key capability).find? other = if other = key then some capability else r.find? other := by
  have split : (r.register key capability).find? other =
      ((r.remove key).find? other).or (([(key, capability)] : List (Key × Capability)).lookup other) :=
    List.lookup_append
  rw [split, find?_remove]
  by_cases same : other = key
  · simp [same]
  · have differs : (other == key) = false := by simpa using same
    rw [if_neg same, if_neg same, List.lookup_cons, differs]
    exact Option.or_none

/-- Every capability is a built-in one under its own key. -/
def BuiltIn (r : Registry) (dialect : Dialect) (broken : Option String) : Prop :=
  ∀ key capability, r.find? key = some capability →
    ∃ action : Builtin, key = action.key ∧ capability = .builtin action dialect broken

theorem builtIn_withBuiltins (dialect : Dialect) (texts wholes : Bool) (broken : Option String) :
    (empty.withBuiltins dialect texts wholes broken).BuiltIn dialect broken := by
  have from_ (actions : List Builtin) (r : Registry) (built : r.BuiltIn dialect broken) :
      (actions.foldl (fun r action => r.register action.key (.builtin action dialect broken)) r).BuiltIn
        dialect broken := by
    induction actions generalizing r with
    | nil => exact built
    | cons action actions ih =>
      apply ih
      intro key capability found
      rw [find?_register] at found
      by_cases same : key = action.key
      · rw [if_pos same] at found
        cases found
        exact ⟨action, same, rfl⟩
      · rw [if_neg same] at found
        exact built key capability found
  apply from_
  intro key capability found
  cases found

theorem BuiltIn.deny {dialect : Dialect} {broken : Option String} (built : r.BuiltIn dialect broken)
    (selectors : List String) : (r.deny selectors).BuiltIn dialect broken := by
  intro key capability found
  apply built
  rw [find?_deny] at found
  cases denied : denies selectors key with
  | false =>
    rw [denied] at found
    exact found
  | true =>
    rw [denied] at found
    cases found

end Registry

end ScriptKernel
