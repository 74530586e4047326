import Mathlib.Data.List.DropRight
import ScriptKernel.Proofs.Parse.Yields
import ScriptKernel.Proofs.Source.WrittenLexemes

/-!
Words, names and numbers at the cursor. A word is read whole where no further
character of it follows.
-/

namespace ScriptKernel.Written

open ScriptKernel.Parser (Reads)

variable {ctx : Context}

@[simp] theorem isAt_source (text other : String) (s : Rest) :
    Rest.isAt other (.source text :: s) = (text == other) := rfl

@[simp] theorem isAt_sign (text other : String) (s : Rest) :
    Rest.isAt other (.sign text :: s) = false := rfl

theorem isAtAny_singleton (text : String) (s : Rest) :
    Rest.isAtAny [text] (.source text :: s) := by
  simp [Rest.isAtAny]

theorem isDigitStart_source (text : String) (s : Rest) :
    Rest.isDigitStart (.source text :: s) = text.toList.head?.any Char.isDigit := by
  simp [Rest.isDigitStart]

theorem length_parts_le {parts : List Rest} {part gap : Rest} (member : part ∈ parts) :
    part.length ≤ (Rest.joined gap parts).length := by
  fun_induction Rest.joined gap parts with
  | case1 => cases member
  | case2 only =>
    rw [List.mem_singleton.mp member]
  | case3 first next more ih =>
    simp only [List.length_append]
    rcases List.mem_cons.mp member with rfl | later
    · exact Nat.le_add_right_of_le (Nat.le_add_right_of_le (Nat.le_refl _))
    · have := ih later
      omega

theorem word_of_not_isWord {l : Lexeme} (other : l.isWord = false) (s : Rest) :
    Rest.word (l :: s) = "" := by
  simp only [Rest.word, List.takeWhile_cons, other, Bool.false_eq_true, if_false]
  rfl

@[simp] theorem word_sign (text : String) (s : Rest) : Rest.word (.sign text :: s) = "" :=
  word_of_not_isWord rfl s

theorem isWord_source {text : String} (other : isWordText text = false) :
    (Lexeme.source text).isWord = false := by
  rw [Lexeme.isWord, Lexeme.source_text, other, Bool.and_false]

/-- Nothing follows that would make a word or a number longer. -/
structure Clear (s : Rest) : Prop where
  noWord : ∀ l ∈ s.head?, l.isWord = false
  noPoint : Rest.isAt "." s = false

theorem clear_sign (text : String) (s : Rest) : Clear (.sign text :: s) := by
  constructor
  · rintro _ ⟨⟩
    rfl
  · rfl

theorem clear_source {text : String} (other : isWordText text = false) (notPoint : text ≠ ".") (s : Rest) :
    Clear (.source text :: s) := by
  constructor
  · rintro _ ⟨⟩
    exact isWord_source other
  · simpa using notPoint

theorem isWord_singleton {c : Char} (word : Text.isWordChar c) :
    (Lexeme.source (String.singleton c)).isWord := by
  simp [Lexeme.isWord, isWordText, word]

theorem takeWhile_letters {text : List Char} (word : ∀ c ∈ text, Text.isWordChar c) {s : Rest}
    (clear : Clear s) :
    (letters text ++ s).takeWhile (·.isWord) = letters text ∧
      (letters text ++ s).dropWhile (·.isWord) = s := by
  have all : ∀ l ∈ letters text, l.isWord := by
    intro l member
    obtain ⟨c, inside, rfl⟩ := List.mem_map.mp member
    exact isWord_singleton (word c inside)
  have stop : s.takeWhile (·.isWord) = [] ∧ s.dropWhile (·.isWord) = s := by
    cases s with
    | nil => exact ⟨rfl, rfl⟩
    | cons l t =>
      have other : l.isWord = false := clear.noWord l rfl
      simp [other]
  rw [List.takeWhile_append_of_pos all, List.dropWhile_append_of_pos all, stop.1, stop.2]
  simp

theorem text_letters (text : List Char) : Rest.text (letters text) = String.ofList text := by
  rw [← String.toList_inj]
  induction text with
  | nil => rfl
  | cons c text ih =>
    simp only [Rest.text, letters, List.map_cons, String.join_cons, String.toList_append] at ih ⊢
    rw [ih]
    simp

theorem word_letters {text : List Char} (word : ∀ c ∈ text, Text.isWordChar c) {s : Rest}
    (clear : Clear s) : Rest.word (letters text ++ s) = String.ofList text := by
  rw [Rest.word, (takeWhile_letters word clear).1, text_letters]

theorem afterWord_letters {text : List Char} (word : ∀ c ∈ text, Text.isWordChar c) {s : Rest}
    (clear : Clear s) : Rest.afterWord (letters text ++ s) = s :=
  (takeWhile_letters word clear).2

theorem reads_letters {text : List Char} (word : ∀ d ∈ text, Text.isWordChar d) {s : Rest}
    (clear : Clear s) : Reads Parser.word ctx (letters text ++ s) (String.ofList text) s := by
  have read : Reads Parser.word ctx _ _ _ := Reads.word (letters text ++ s)
  rwa [word_letters word clear, afterWord_letters word clear] at read

theorem word_letter {c : Char} (word : Text.isWordChar c) (s : Rest) :
    (Rest.word (.source (String.singleton c) :: s)).toList.head? = some c := by
  rw [Rest.word, List.takeWhile_cons, if_pos (isWord_singleton word), Rest.text, List.map_cons,
    String.join_cons, String.toList_append]
  simp

theorem isWordChar_of_isDigit {c : Char} (digit : c.isDigit) : Text.isWordChar c := by
  have ascii : c.toNat < 0x80 := by
    simp only [Char.isDigit, Bool.and_eq_true, decide_eq_true_eq] at digit
    have upper : c.toNat ≤ 57 := digit.2
    omega
  simp [Text.isWordChar, Text.isDigit, ascii, digit]

theorem Clear.not_atDigit {s : Rest} (clear : Clear s) : ¬Parser.AtDigit s := by
  rintro ⟨l, t, rfl, digits⟩
  have other := clear.noWord l rfl
  simp only [Lexeme.isDigits, isDigitText, Bool.and_eq_true, List.all_eq_true] at digits
  have word : l.isWord := by
    simp only [Lexeme.isWord, isWordText, Bool.and_eq_true, List.all_eq_true]
    exact ⟨digits.1, digits.2.1, fun c member => isWordChar_of_isDigit (digits.2.2 c member)⟩
  rw [word] at other
  cases other

theorem isDigits_letters {text : List Char} (digits : ∀ c ∈ text, c.isDigit) :
    ∀ l ∈ letters text, l.isDigits := by
  intro l member
  obtain ⟨c, inside, rfl⟩ := List.mem_map.mp member
  simp [Lexeme.isDigits, isDigitText, digits c inside]

theorem isNameStart_letters {c : Char} (text : List Char) (start : Text.isNameStart c) (s : Rest) :
    Rest.isNameStart (letters (c :: text) ++ s) := by
  change Rest.isNameStart (.source (String.singleton c) :: _) = true
  simp [Rest.isNameStart, isWord_singleton (Text.isWordChar_of_isNameStart start), start]

theorem not_isDigit_of_isNameStart {c : Char} (start : Text.isNameStart c) : c.isDigit = false := by
  by_contra digit
  rw [Bool.not_eq_false] at digit
  obtain ⟨lower, upper⟩ := Char.isDigit_iff_toNat.mp digit
  change 48 ≤ c.toNat at lower
  change c.toNat ≤ 57 at upper
  have ascii : c.toNat < 0x80 := by omega
  have noLetter : c.isAlpha = false := by
    simp only [Char.isAlpha, Char.isUpper, Char.isLower, ge_iff_le, UInt32.le_iff_toNat_le,
      Bool.or_eq_false_iff, decide_eq_false_iff_not, Bool.and_eq_false_iff]
    change ¬(65 ≤ c.toNat ∧ c.toNat ≤ 90) ∧ (¬97 ≤ c.toNat ∨ ¬c.toNat ≤ 122)
    omega
  have notLine : c ≠ '_' := by
    rintro rfl
    cases digit
  simp [Text.isNameStart, Text.isLetter, ascii, noLetter, notLine] at start

structure IsName (reserved : List String) (name : String) : Prop where
  wordlike : Selector.isName name.toList
  free : name ∉ reserved

namespace IsName

variable {reserved : List String} {name : String}

theorem parts (valid : IsName reserved name) :
    ∃ c text, name.toList = c :: text ∧ Text.isNameStart c ∧ c.isDigit = false := by
  have wordlike := valid.wordlike
  cases chars : name.toList with
  | nil => simp [chars, Selector.isName] at wordlike
  | cons c text =>
    rw [chars, Selector.isName, Bool.and_eq_true] at wordlike
    exact ⟨c, text, rfl, wordlike.1, not_isDigit_of_isNameStart wordlike.1⟩

theorem ne_nil (valid : IsName reserved name) : name.toList ≠ [] := by
  obtain ⟨c, text, chars, -⟩ := valid.parts
  rw [chars]
  exact List.cons_ne_nil c text

theorem wordChars (valid : IsName reserved name) : ∀ c ∈ name.toList, Text.isWordChar c := by
  have wordlike := valid.wordlike
  obtain ⟨c, text, chars, start, -⟩ := valid.parts
  rw [chars, Selector.isName, Bool.and_eq_true, List.all_eq_true] at wordlike
  rw [chars]
  intro d member
  rcases List.mem_cons.mp member with rfl | later
  · exact Text.isWordChar_of_isNameStart start
  · exact wordlike.2 d later

theorem reads (valid : IsName reserved name) {s : Rest} (clear : Clear s) :
    Reads (Parser.name reserved) ctx (letters name.toList ++ s) name s := by
  obtain ⟨c, text, chars, start, -⟩ := valid.parts
  have seen := word_letters valid.wordChars clear
  rw [String.ofList_toList] at seen
  have opening : Rest.isNameStart (letters name.toList ++ s) := by
    rw [chars]
    exact isNameStart_letters text start s
  have read : Reads (Parser.name reserved) ctx _ _ _ := Reads.name opening (by rw [seen]; exact valid.free)
  rwa [seen, afterWord_letters valid.wordChars clear] at read

end IsName

end ScriptKernel.Written
