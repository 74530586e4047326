import Mathlib.Data.List.Basic
import ScriptKernel.Proofs.Lumen.Rendering
import ScriptKernel.Proofs.Source.PairedLexemes

/-!
The lexemes of written text. Words fall into their characters, and text that is
put in parentheses, in quotes or between commas falls into the lexemes of its
parts, as long as no longer lexeme contains a character of this punctuation.
-/

namespace ScriptKernel.Written

open Lumen (parenthesized commas escaped quoted)

def letters (text : List Char) : Rest :=
  text.map fun c => .source (String.singleton c)

def enclosed (inner : Rest) : Rest :=
  .source "(" :: (inner ++ [.source ")"])

def quotedLexemes (contents : Rest) : Rest :=
  .source "\"" :: (contents ++ [.source "\""])

def listed (parts : List Rest) : Rest :=
  Rest.joined [.source ",", .source " "] parts

theorem letters_injective {first second : List Char} (same : letters first = letters second) :
    first = second := by
  have singleton {c d : Char} (h : Lexeme.source (String.singleton c) = .source (String.singleton d)) :
      c = d := by
    have texts := congrArg (fun l : Lexeme => l.text.toList) h
    simpa using texts
  exact List.map_injective_iff.2 (fun _ _ => singleton) same

def marks : List Char := [' ', ',', '(', ')', '"', '\\']

/-- A table of pairs of characters in which there is no punctuation and which
no character of a word begins. -/
structure Spaced (table : Table) (pairs : List (Char × Char)) : Prop where
  paired : table.Paired pairs
  words : ∀ c ∈ pairs.map Prod.fst, Text.isWordChar c = false
  starts : ∀ c ∈ marks, c ∉ pairs.map Prod.fst
  ends : ∀ c ∈ marks, c ∉ pairs.map Prod.snd

namespace Spaced

open Lexer (lexed)

variable {table : Table} {pairs : List (Char × Char)} (spaced : Spaced table pairs)
include spaced

theorem lexed_mark {c : Char} (mark : c ∈ marks) (rest : List Char) :
    lexed table (c :: rest) = .source (String.singleton c) :: lexed table rest :=
  Lexer.lexed_char spaced.paired (spaced.starts c mark) rest

theorem lexed_append_mark {c : Char} (mark : c ∈ marks) (first rest : List Char) :
    lexed table (first ++ c :: rest) = lexed table first ++ .source (String.singleton c) :: lexed table rest := by
  rw [Lexer.lexed_append spaced.paired (by rintro _ ⟨⟩; exact spaced.ends c mark), spaced.lexed_mark mark]

theorem lexed_letters {text : List Char} (starts : ∀ c ∈ text, c ∉ pairs.map Prod.fst)
    (rest : List Char) : lexed table (text ++ rest) = letters text ++ lexed table rest := by
  induction text with
  | nil => rfl
  | cons c text ih =>
    rw [List.cons_append, Lexer.lexed_char spaced.paired (starts c List.mem_cons_self),
      ih fun d member => starts d (List.mem_cons_of_mem c member)]
    rfl

theorem starts_of_isWordChar {c : Char} (word : Text.isWordChar c) : c ∉ pairs.map Prod.fst := by
  intro entry
  rw [spaced.words c entry] at word
  cases word

theorem lexed_word {text : List Char} (word : ∀ c ∈ text, Text.isWordChar c) :
    lexed table text = letters text := by
  have cut := spaced.lexed_letters (fun c member => spaced.starts_of_isWordChar (word c member)) []
  simpa using cut

theorem lexed_commas (texts : List (List Char)) :
    lexed table (commas texts) = listed (texts.map (lexed table)) := by
  fun_induction commas texts with
  | case1 => exact Lexer.lexed_nil table
  | case2 text => rfl
  | case3 text next more ih =>
    rw [List.append_assoc]
    change lexed table (text ++ ',' :: ' ' :: commas (next :: more)) = _
    rw [spaced.lexed_append_mark (by decide), spaced.lexed_mark (by decide), ih]
    simp only [listed, List.map_cons, Rest.joined, List.append_assoc]
    rfl

theorem lexed_parenthesized (text : List Char) :
    lexed table (parenthesized text) = enclosed (lexed table text) := by
  rw [parenthesized, List.cons_append, spaced.lexed_mark (by decide), spaced.lexed_append_mark (by decide),
    Lexer.lexed_nil]
  rfl

theorem lexed_append_parenthesized (first text : List Char) :
    lexed table (first ++ parenthesized text) = lexed table first ++ enclosed (lexed table text) := by
  have opening : '(' ∉ pairs.map Prod.snd := spaced.ends '(' (by decide)
  rw [Lexer.lexed_append spaced.paired (by rintro _ ⟨⟩; exact opening), spaced.lexed_parenthesized]

end Spaced

def Special (c : Char) : Prop :=
  c = '"' ∨ c = '\\'

theorem Special.mem_marks {c : Char} (special : Special c) : c ∈ marks := by
  rcases special with rfl | rfl <;> decide

theorem escaped_plain {c : Char} (plain : ¬Special c) (rest : List Char) :
    escaped (c :: rest) = c :: escaped rest :=
  if_neg plain

theorem ofList_cons (c : Char) (rest : List Char) :
    String.ofList (c :: rest) = String.singleton c ++ String.ofList rest := by
  rw [← String.toList_inj]
  simp

namespace Spaced

open Lexer (lexed)

variable {table : Table} {pairs : List (Char × Char)} (spaced : Spaced table pairs)
include spaced

theorem contents_special {c : Char} {rest : List Char} {read : String} (special : Special c)
    (more : Parser.Contents "\"" (lexed table (escaped rest)) read) :
    Parser.Contents "\"" (lexed table (escaped (c :: rest))) (String.singleton c ++ read) := by
  have spelled : escaped (c :: rest) = '\\' :: c :: escaped rest := if_pos special
  have meaning : Parser.unescape? (String.singleton c) = some (String.singleton c) := by
    rcases special with rfl | rfl <;> decide
  rw [spelled, spaced.lexed_mark (by decide), spaced.lexed_mark special.mem_marks]
  exact .escape meaning more

theorem contents_plain {c : Char} {rest : List Char} {read : String} (plain : ¬Special c)
    (alone : ∀ d ∈ (escaped rest).head?, (c, d) ∉ pairs)
    (more : Parser.Contents "\"" (lexed table (escaped rest)) read) :
    Parser.Contents "\"" (lexed table (escaped (c :: rest))) (String.singleton c ++ read) := by
  have ordinary (d : Char) (other : c ≠ d) : String.singleton c ≠ String.singleton d := by
    intro same
    have chars := congrArg String.toList same
    simp only [String.toList_singleton, List.cons.injEq, and_true] at chars
    exact other chars
  rw [escaped_plain plain, Lexer.lexed_single spaced.paired alone]
  exact .piece (ordinary '"' fun h => plain (Or.inl h)) (ordinary '\\' fun h => plain (Or.inr h)) more

theorem contents_pair {c d : Char} {rest : List Char} {read : String} (entry : (c, d) ∈ pairs)
    (more : Parser.Contents "\"" (lexed table (escaped rest)) read) :
    Parser.Contents "\"" (lexed table (escaped (c :: d :: rest))) (String.ofList [c, d] ++ read) := by
  have first : ¬Special c := fun special =>
    spaced.starts c special.mem_marks (List.mem_map_of_mem entry)
  have second : ¬Special d := fun special =>
    spaced.ends d special.mem_marks (List.mem_map_of_mem entry)
  have long (e : Char) : String.ofList [c, d] ≠ String.singleton e := by
    intro same
    have chars := congrArg String.toList same
    simp at chars
  rw [escaped_plain first, escaped_plain second, Lexer.lexed_pair spaced.paired entry]
  exact .piece (long '"') (long '\\') more

theorem contents_escaped (text : List Char) :
    Parser.Contents "\"" (lexed table (escaped text)) (String.ofList text) := by
  have nothing : Parser.Contents "\"" (lexed table (escaped [])) (String.ofList []) := by
    rw [escaped, Lexer.lexed_nil]
    exact .nil
  induction text using List.twoStepInduction with
  | nil => exact nothing
  | singleton c =>
    rw [ofList_cons]
    by_cases special : Special c
    · exact spaced.contents_special special nothing
    · exact spaced.contents_plain special (by simp [escaped]) nothing
  | cons_cons c d rest shorter ih =>
    by_cases entry : (c, d) ∈ pairs
    · have text : String.ofList (c :: d :: rest) = String.ofList [c, d] ++ String.ofList rest := by
        rw [← String.toList_inj]
        simp
      rw [text]
      exact spaced.contents_pair entry shorter
    · rw [ofList_cons]
      by_cases special : Special c
      · exact spaced.contents_special special (ih d)
      · refine spaced.contents_plain special ?_ (ih d)
        have slash : '\\' ∉ pairs.map Prod.snd := spaced.ends '\\' (by decide)
        intro e head
        rw [escaped] at head
        split at head
        · cases head
          exact fun member => slash (List.mem_map_of_mem member)
        · cases head
          exact entry

theorem lexed_quoted (text : String) :
    lexed table (quoted text) = quotedLexemes (lexed table (escaped text.toList)) := by
  rw [quoted, List.cons_append, spaced.lexed_mark (by decide), spaced.lexed_append_mark (by decide),
    Lexer.lexed_nil]
  rfl

end Spaced

end ScriptKernel.Written
