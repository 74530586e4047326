import Mathlib.Data.List.Induction
import ScriptKernel.Proofs.Parse.Reads
import ScriptKernel.Proofs.Source.LexemeTables
import ScriptKernel.Source.Lexer

/-!
Lexing with a table whose entries all have two characters. Which lexemes come
out does not depend on where the text stands, and a text may be cut before any
character that ends no entry.
-/

namespace ScriptKernel

def Table.Paired (table : Table) (pairs : List (Char × Char)) : Prop :=
  table.entries = pairs.map fun pair => String.ofList [pair.1, pair.2]

theorem Table.Paired.empty_not_mem {table : Table} {pairs : List (Char × Char)} (paired : table.Paired pairs) :
    "" ∉ table.entries := by
  rw [paired, List.mem_map]
  rintro ⟨pair, -, empty⟩
  simp at empty

namespace Lexer

variable (table : Table)

def lexed (text : List Char) : Rest :=
  Rest.bare (cut table Place.start text)

@[simp] theorem lexed_nil : lexed table [] = [] := by
  simp [lexed, cut]

theorem bare_cut (place other : Place) (text : List Char) :
    Rest.bare (cut table place text) = Rest.bare (cut table other text) := by
  fun_induction cut table place text generalizing other with
  | case1 => simp [cut]
  | case2 place c rest more text next ih =>
    rw [cut, Rest.bare_cons, Rest.bare_cons, ih]
    rfl

theorem lexed_cons (c : Char) (rest : List Char) :
    lexed table (c :: rest) =
      .source (String.ofList (c :: rest.take (extra table (c :: rest)))) ::
        lexed table (rest.drop (extra table (c :: rest))) := by
  rw [lexed, cut, Rest.bare_cons, bare_cut table _ Place.start]
  rfl

theorem source_of_mem_lexed (text : List Char) : ∀ l ∈ lexed table text, l.synthetic = false := by
  unfold lexed
  fun_induction cut table Place.start text with
  | case1 => exact List.forall_mem_nil _
  | case2 place c rest more text next ih =>
    rw [Rest.bare_cons, List.forall_mem_cons]
    exact ⟨rfl, ih⟩

variable {table} {pairs : List (Char × Char)} (paired : table.Paired pairs)
include paired

theorem longest?_cons_cons (c d : Char) (rest : List Char) :
    table.longest? (c :: d :: rest) =
      if (c, d) ∈ pairs then some (String.ofList [c, d]) else none := by
  rw [Table.longest?_eq paired.empty_not_mem, paired]
  clear paired
  induction pairs with
  | nil => simp
  | cons pair pairs ih =>
    obtain ⟨a, b⟩ := pair
    rw [List.map_cons]
    by_cases same : a = c ∧ b = d
    · obtain ⟨rfl, rfl⟩ := same
      simp
    · have other : ¬(c = a ∧ d = b) := fun h => same ⟨h.1.symm, h.2.symm⟩
      rw [List.find?_cons_of_neg (by simpa using same), ih]
      simp [other]

theorem longest?_singleton (c : Char) : table.longest? [c] = none := by
  rw [Table.longest?_eq paired.empty_not_mem, paired]
  simp

theorem lexed_pair {c d : Char} (entry : (c, d) ∈ pairs) (rest : List Char) :
    lexed table (c :: d :: rest) = .source (String.ofList [c, d]) :: lexed table rest := by
  have more : extra table (c :: d :: rest) = 1 := by
    rw [extra, longest?_cons_cons paired, if_pos entry]
    simp
  rw [lexed_cons, more]
  rfl

theorem lexed_single {c : Char} {rest : List Char} (alone : ∀ d ∈ rest.head?, (c, d) ∉ pairs) :
    lexed table (c :: rest) = .source (String.singleton c) :: lexed table rest := by
  have more : extra table (c :: rest) = 0 := by
    cases rest with
    | nil => rw [extra, longest?_singleton paired]
    | cons d rest => rw [extra, longest?_cons_cons paired, if_neg (alone d rfl)]
  rw [lexed_cons, more]
  rfl

theorem lexed_char {c : Char} (starts : c ∉ pairs.map Prod.fst) (rest : List Char) :
    lexed table (c :: rest) = .source (String.singleton c) :: lexed table rest :=
  lexed_single paired fun _ _ entry => starts (List.mem_map_of_mem entry)

/-- No entry reaches over the point between two texts if none ends with the
first character of the second. -/
theorem lexed_append {first second : List Char}
    (apart : ∀ d ∈ second.head?, d ∉ pairs.map Prod.snd) :
    lexed table (first ++ second) = lexed table first ++ lexed table second := by
  induction first using List.twoStepInduction with
  | nil => simp
  | singleton c =>
    have alone : ∀ d ∈ second.head?, (c, d) ∉ pairs := fun d head entry =>
      apart d head (List.mem_map_of_mem entry)
    rw [List.singleton_append, lexed_single paired alone, lexed_single paired (by simp)]
    simp
  | cons_cons c d rest shorter ih =>
    by_cases entry : (c, d) ∈ pairs
    · rw [List.cons_append, List.cons_append, lexed_pair paired entry, lexed_pair paired entry, shorter,
        List.cons_append]
    · have alone (rest : List Char) : ∀ e ∈ (d :: rest).head?, (c, e) ∉ pairs := by
        rintro _ ⟨⟩
        exact entry
      rw [List.cons_append, List.cons_append, lexed_single paired (alone _), ← List.cons_append, ih,
        lexed_single paired (alone _), List.cons_append]

@[elab_as_elim]
theorem lexed_induction {motive : List Char → Prop} (nil : motive [])
    (pair : ∀ c d rest, (c, d) ∈ pairs →
      lexed table (c :: d :: rest) = .source (String.ofList [c, d]) :: lexed table rest →
      motive rest → motive (c :: d :: rest))
    (single : ∀ c rest, (∀ d ∈ rest.head?, (c, d) ∉ pairs) →
      lexed table (c :: rest) = .source (String.singleton c) :: lexed table rest →
      motive rest → motive (c :: rest))
    (text : List Char) : motive text := by
  induction text using List.twoStepInduction with
  | nil => exact nil
  | singleton c =>
    have alone : ∀ d ∈ ([] : List Char).head?, (c, d) ∉ pairs := by simp
    exact single c [] alone (lexed_single paired alone) nil
  | cons_cons c d rest shorter ih =>
    by_cases entry : (c, d) ∈ pairs
    · exact pair c d rest entry (lexed_pair paired entry rest) shorter
    · have alone : ∀ e ∈ (d :: rest).head?, (c, e) ∉ pairs := by
        rintro _ ⟨⟩
        exact entry
      exact single c (d :: rest) alone (lexed_single paired alone) (ih d)

theorem singleton_not_mem_lexed {c : Char} {text : List Char} (none : c ∉ text) :
    ∀ l ∈ lexed table text, l.text ≠ String.singleton c := by
  have other {text : List Char} (different : text ≠ [c]) : String.ofList text ≠ String.singleton c := by
    intro same
    have chars := congrArg String.toList same
    rw [String.toList_ofList, String.toList_singleton] at chars
    exact different chars
  induction text using lexed_induction paired with
  | nil =>
    rw [lexed_nil]
    exact List.forall_mem_nil _
  | pair d e rest entry cut ih =>
    rw [cut, List.forall_mem_cons]
    refine ⟨other (by simp), ih fun later => none ?_⟩
    exact List.mem_cons_of_mem _ (List.mem_cons_of_mem _ later)
  | single d rest alone cut ih =>
    rw [cut, List.forall_mem_cons]
    have different : [d] ≠ [c] := by
      intro same
      rw [List.singleton_inj.1 same] at none
      exact none List.mem_cons_self
    exact ⟨other different, ih fun later => none (List.mem_cons_of_mem _ later)⟩

end Lexer

end ScriptKernel
