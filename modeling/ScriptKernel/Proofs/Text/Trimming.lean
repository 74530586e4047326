import Mathlib.Data.List.DropRight
import Mathlib.Data.List.Induction
import ScriptKernel.Text.Blank

/-!
White space at the ends of texts. What the removal leaves is the text less white
space on both sides, so it keeps every property that a text keeps when a single
blank is taken off an end.
-/

namespace ScriptKernel.Text

def Blank (text : List Char) : Prop := ∀ c ∈ text, isBlank c = true

def Padded (part text : List Char) : Prop :=
  ∃ before behind, Blank before ∧ Blank behind ∧ text = before ++ part ++ behind

structure Solid (part : List Char) : Prop where
  some : part ≠ []
  first : ∀ c ∈ part.head?, isBlank c = false
  last : ∀ c ∈ part.getLast?, isBlank c = false

structure Strips (P : List Char → Prop) : Prop where
  front {c : Char} {text : List Char} : isBlank c = true → P (c :: text) → P text
  back {c : Char} {text : List Char} : isBlank c = true → P (text ++ [c]) → P text

variable {part text : List Char} {P : List Char → Prop}

theorem Padded.refl (part : List Char) : Padded part part :=
  ⟨[], [], by simp [Blank], by simp [Blank], by simp⟩

theorem blank_reverse : Blank text.reverse ↔ Blank text := by simp [Blank]

theorem exists_trimRight (text : List Char) : ∃ behind, Blank behind ∧ text = trimRight isBlank text ++ behind := by
  refine ⟨(text.reverse.takeWhile isBlank).reverse, ?_, ?_⟩
  · rw [blank_reverse]
    exact fun c within => List.mem_takeWhile_imp within
  · rw [trimRight, ← List.reverse_append, List.takeWhile_append_dropWhile, List.reverse_reverse]

theorem padded_trimChars (text : List Char) : Padded (trimChars text) text := by
  obtain ⟨behind, blank, cut⟩ := exists_trimRight (text.dropWhile isBlank)
  refine ⟨text.takeWhile isBlank, behind, fun c within => List.mem_takeWhile_imp within, blank, ?_⟩
  rw [List.append_assoc, trimChars, ← cut, List.takeWhile_append_dropWhile]

theorem dropWhile_blank {before : List Char} (blank : Blank before) (some : part ≠ [])
    (first : ∀ c ∈ part.head?, isBlank c = false) : (before ++ part).dropWhile isBlank = part := by
  obtain ⟨c, rest, rfl⟩ := List.exists_cons_of_ne_nil some
  rw [List.dropWhile_append_of_pos blank, List.dropWhile_cons_of_neg]
  simpa using first c rfl

theorem trimRight_blank {behind : List Char} (blank : Blank behind) (some : part ≠ [])
    (last : ∀ c ∈ part.getLast?, isBlank c = false) : trimRight isBlank (part ++ behind) = part := by
  rw [trimRight, List.reverse_append, dropWhile_blank (blank_reverse.mpr blank) (by simpa using some)
    (by simpa using last), List.reverse_reverse]

theorem trimChars_of_padded (solid : Solid part) (padded : Padded part text) : trimChars text = part := by
  obtain ⟨before, behind, blank, blank', rfl⟩ := padded
  have first : ∀ c ∈ (part ++ behind).head?, isBlank c = false := by
    rw [List.head?_append_of_ne_nil _ solid.some]
    exact solid.first
  rw [List.append_assoc, trimChars, dropWhile_blank blank (by simp [solid.some]) first,
    trimRight_blank blank' solid.some solid.last]

theorem strips_padded (solid : Solid part) : Strips (Padded part) where
  front := by
    rintro c text white ⟨before, behind, blank, blank', cut⟩
    cases before with
    | nil =>
      obtain ⟨b, visible, same⟩ := List.exists_cons_of_ne_nil solid.some
      subst same
      obtain ⟨rfl, -⟩ := List.cons.inj cut
      exact absurd white (by simp [solid.first c rfl])
    | cons b before =>
      obtain ⟨rfl, rfl⟩ := List.cons.inj cut
      exact ⟨before, behind, fun b within => blank b (List.mem_cons_of_mem c within), blank', rfl⟩
  back := by
    rintro c text white ⟨before, behind, blank, blank', cut⟩
    induction behind using List.reverseRecOn with
    | nil =>
      have ending : (before ++ part).getLast? = some c := by
        rw [← List.append_nil (before ++ part), ← cut, List.getLast?_concat]
      rw [List.getLast?_append_of_ne_nil _ solid.some] at ending
      exact absurd white (by simp [solid.last c ending])
    | append_singleton behind b _ =>
      rw [← List.append_assoc] at cut
      obtain ⟨rfl, -⟩ := List.append_inj' cut rfl
      exact ⟨before, behind, blank, fun b within => blank' b (List.mem_append_left _ within), rfl⟩

theorem Strips.of_padded (strips : Strips P) (padded : Padded part text) (holds : P text) : P part := by
  obtain ⟨before, behind, blank, blank', rfl⟩ := padded
  induction before with
  | cons c before ih =>
    exact ih (fun b within => blank b (List.mem_cons_of_mem c within)) (strips.front (blank c List.mem_cons_self) holds)
  | nil =>
    induction behind using List.reverseRecOn with
    | nil => simpa using holds
    | append_singleton behind c ih =>
      have inner : Blank behind := fun b within => blank' b (List.mem_append_left [c] within)
      have last : isBlank c = true := blank' c (by simp)
      exact ih inner (strips.back last (by simpa using holds))

theorem Strips.trimChars (strips : Strips P) (holds : P text) : P (trimChars text) :=
  strips.of_padded (padded_trimChars text) holds

end ScriptKernel.Text
