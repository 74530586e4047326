import ScriptKernel.Proofs.MiniRust.Trivia

/-!
Streams of two texts that have a beginning in common and part behind it. Such a
beginning is cut into the same lexemes in both of them if it ends with a word or
a parenthesis, since neither is part of a longer lexeme.
-/

namespace ScriptKernel.MiniRust

open Written

theorem texts_lexed (text : List Char) : (lexed text).flatMap (·.text.toList) = text := by
  unfold lexed
  induction text using Lexer.lexed_induction paired with
  | nil => rw [Lexer.lexed_nil]; rfl
  | pair c d rest entry cut ih => simp [cut, ih]
  | single c rest alone cut ih => simp [cut, ih]

theorem rtakeWhile_append {p : Char → Bool} {first second : List Char} (all : ∀ c ∈ second, p c = true) :
    (first ++ second).rtakeWhile p = first.rtakeWhile p ++ second := by
  have reversed : ∀ c ∈ second.reverse, p c = true := fun c member => all c (List.mem_reverse.1 member)
  rw [List.rtakeWhile, List.reverse_append, List.takeWhile_append_of_pos reversed, List.reverse_append,
    List.reverse_reverse]
  rfl

/-- The characters of a word that only digits follow belong to the word that the
text ends with. -/
theorem mem_rtakeWhile {rest : Rest} {text : List Char} (bare : rest.bare = lexed text) {before behind : Rest}
    {l : Lexeme} (split : rest = before ++ l :: behind) (word : l.isWord = true)
    (digits : ∀ d ∈ behind, d.isDigits = true) {c : Char} (member : c ∈ l.text.toList) :
    c ∈ text.rtakeWhile Text.isWordChar := by
  have whole : text = before.flatMap (·.text.toList) ++ (l.text.toList ++ behind.flatMap (·.text.toList)) := by
    have texts := texts_lexed text
    rw [← bare, Rest.bare, List.flatMap_map, split] at texts
    rw [← texts]
    simp
  have ends : ∀ c ∈ l.text.toList ++ behind.flatMap (·.text.toList), Text.isWordChar c = true := by
    intro c member
    rcases List.mem_append.1 member with first | later
    · exact List.all_eq_true.1 (Parser.isWord_chars word) c first
    · obtain ⟨d, known, inside⟩ := List.mem_flatMap.1 later
      exact isWordChar_of_isDigit (List.all_eq_true.1 (Parser.isDigits_chars (digits d known)).2 c inside)
  rw [whole, rtakeWhile_append ends]
  exact List.mem_append_right _ (List.mem_append_left _ member)

def Starts (c : Char) (rest : Rest) : Prop :=
  ∃ l more, rest = l :: more ∧ l.bare = .source (String.singleton c)

def Fork.between {c : Char} {rest rest' : Rest} (barred : List String) (first : Starts c rest) (first' : Starts c rest')
    (starts : c = ')' ∨ Text.isNameStart c = true) (word : Rest.word rest' = Rest.word rest) : Fork where
  parts reached reached' := reached = rest ∧ reached' = rest'
  start := String.singleton c
  barred := barred
  heads := by
    rintro _ _ ⟨rfl, rfl⟩
    obtain ⟨l, more, rfl, bare⟩ := first
    obtain ⟨l', more', rfl, bare'⟩ := first'
    refine ⟨l, more, l', more', rfl, rfl, bare'.trans bare.symm, ?_, ?_⟩
    · rw [← Lexeme.bare_synthetic, bare]
      rfl
    · rw [← Lexeme.bare_text, bare]
      rfl
  starts := by
    rcases starts with rfl | name
    · exact Or.inl rfl
    · have named := isNameStart_letters [] name []
      exact Or.inr named
  word := by
    rintro _ _ ⟨rfl, rfl⟩
    exact word

theorem Alike.upTo {text : List Char} {front front' rest rest' : Rest} (bare : front.bare = lexed text)
    (bare' : front'.bare = lexed text) {c : Char} {barred : List String} (first : Starts c rest) (first' : Starts c rest')
    (starts : c = ')' ∨ Text.isNameStart c = true) (word : Rest.word rest' = Rest.word rest)
    (passes : ∀ known ∈ barred, ∀ before behind, (lexed text).map (·.text) = before ++ known :: behind →
      (Site.through .code before).isOpen = false)
    (apart : Rest.isNameStart rest = true → ∀ c ∈ text.rtakeWhile Text.isWordChar, c.isDigit = true)
    (open_ : (siteBehind text).isOpen = true) (turns : (siteBehind text).step (String.singleton c) = .code) :
    Alike (.between barred first first' starts word) .code (front ++ rest) (front' ++ rest') := by
  have later : Alike (.between barred first first' starts word) (siteBehind text) rest rest' :=
    .part open_ turns ⟨rfl, rfl⟩
  rw [← site_of_bare bare] at later
  apply later.prepend (source_of_bare bare) (bare'.trans bare.symm)
  · intro before l behind split open_ known
    have texts : (lexed text).map (·.text) = before.map (·.text) ++ l.text :: behind.map (·.text) := by
      rw [← bare, map_text_bare, split, List.map_append, List.map_cons]
    rw [passes l.text known _ _ texts] at open_
    cases open_
  · rintro before l behind split ⟨digits, more, more', all, ⟨rfl, rfl⟩, named, whole⟩ word
    rw [List.append_cancel_right whole] at split
    have chars (c : Char) (member : c ∈ l.text.toList) : c.isDigit = true :=
      apart named c (mem_rtakeWhile bare split word all member)
    simp only [Lexeme.isWord, isWordText, Bool.and_eq_true] at word
    simp only [Lexeme.isDigits, isDigitText, Bool.and_eq_true, List.all_eq_true]
    exact ⟨word.1, word.2.1, chars⟩

structure Lettered (text : List Char) : Prop where
  nonempty : text ≠ []
  alone : ∀ c ∈ text, Text.isWordChar c = true ∨ c = ')'

theorem lexed_lettered {text : List Char} (lettered : Lettered text) (front rest : List Char) :
    lexed (front ++ (text ++ rest)) = lexed front ++ (letters text ++ lexed rest) := by
  have starts : ∀ c ∈ text, c ∉ pairs.map Prod.fst := by
    intro c member
    rcases lettered.alone c member with word | rfl
    · exact spaced.starts_of_isWordChar word
    · decide
  have ends : ∀ c ∈ (text ++ rest).head?, c ∉ pairs.map Prod.snd := by
    obtain ⟨c, more, rfl⟩ := List.exists_cons_of_ne_nil lettered.nonempty
    rintro _ ⟨⟩ entry
    have others : ∀ d ∈ pairs.map Prod.snd, Text.isWordChar d = false ∧ d ≠ ')' := by decide
    rcases lettered.alone c List.mem_cons_self with word | paren
    · rw [(others c entry).1] at word
      cases word
    · exact (others c entry).2 paren
  have apart : lexed (front ++ (text ++ rest)) = lexed front ++ lexed (text ++ rest) := Lexer.lexed_append paired ends
  rw [apart]
  congr 1
  exact spaced.lexed_letters starts rest

/-- A stream goes on with a text of which every character is a lexeme, and `behind` after it. -/
def Reaches (text : List Char) (behind rest : Rest) : Prop :=
  ∃ run, rest = run ++ behind ∧ run.bare = letters text

def Unworded (rest : Rest) : Prop :=
  ∀ l ∈ rest.head?, l.isWord = false

namespace Reaches

variable {text : List Char} {behind rest : Rest}

theorem first {c : Char} (reaches : Reaches (c :: text) behind rest) : Starts c rest := by
  obtain ⟨run, rfl, bare⟩ := reaches
  cases run with
  | nil => cases bare
  | cons l run => exact ⟨l, run ++ behind, rfl, (List.cons.inj bare).1⟩

theorem read (reaches : Reaches text behind rest) (wordlike : ∀ c ∈ text, Text.isWordChar c = true)
    (stops : Unworded behind) : Rest.word rest = String.ofList text ∧ Rest.afterWord rest = behind := by
  obtain ⟨run, rfl, bare⟩ := reaches
  have words : ∀ l ∈ run, l.isWord = true := by
    intro l member
    have placeless : l.bare ∈ letters text := bare ▸ List.mem_map_of_mem member
    obtain ⟨c, inside, same⟩ := List.mem_map.1 placeless
    rw [← Lexeme.isWord_bare, ← same]
    exact isWord_singleton (wordlike c inside)
  have stops : behind.takeWhile (·.isWord) = [] ∧ behind.dropWhile (·.isWord) = behind := by
    cases behind with
    | nil => exact ⟨rfl, rfl⟩
    | cons l more =>
      have other : l.isWord = false := stops l rfl
      simp [other]
  rw [Rest.word, Rest.afterWord, List.takeWhile_append_of_pos words, List.dropWhile_append_of_pos words, stops.1, stops.2,
    List.append_nil, ← Rest.text_bare, bare, text_letters]
  exact ⟨rfl, rfl⟩

theorem bare (reaches : Reaches text behind rest) : rest.bare = letters text ++ behind.bare := by
  obtain ⟨run, rfl, bare⟩ := reaches
  rw [← bare]
  exact List.map_append

theorem isAt {c : Char} (reaches : Reaches (c :: text) behind rest) (sign : String) :
    Rest.isAt sign rest = (String.singleton c == sign) := by
  rw [← Rest.isAt_bare, reaches.bare]
  rfl

theorem tail {c : Char} (reaches : Reaches [c] behind rest) : rest.tail = behind := by
  obtain ⟨run, rfl, bare⟩ := reaches
  obtain ⟨l, rfl, -⟩ := List.map_eq_singleton_iff.1 bare
  rfl

end Reaches

theorem unworded_lexed {c : Char} (other : Text.isWordChar c = false) {more : List Char} {rest ends : Rest}
    (bare : rest.bare = lexed (c :: more) ++ ends) : Unworded rest := by
  have texts := texts_lexed (c :: more)
  cases cut : lexed (c :: more) with
  | nil =>
    rw [cut] at texts
    cases texts
  | cons d behind =>
    rw [cut] at bare texts
    cases rest with
    | nil => cases bare
    | cons l rest =>
      rw [Rest.bare_cons, List.cons_append, List.cons.injEq] at bare
      rintro _ ⟨⟩
      by_contra word
      rw [Bool.not_eq_false, ← Lexeme.isWord_bare, bare.1] at word
      have chars := List.all_eq_true.1 (Parser.isWord_chars word)
      cases first : d.text.toList with
      | nil =>
        have empty : d.text = "" := by simpa using first
        rw [Lexeme.isWord, empty, show isWordText "" = false from rfl, Bool.and_false] at word
        cases word
      | cons e text =>
        rw [List.flatMap_cons, first, List.cons_append, List.cons.injEq] at texts
        rw [first] at chars
        have wordlike : Text.isWordChar e = true := chars e List.mem_cons_self
        rw [texts.1, other] at wordlike
        cases wordlike

/-- A stream that is cut at the keyword of a declaration, and at a name or a
parenthesis further on. -/
structure Cut (front keyword region last behind : List Char) (tokens : Rest) where
  before : Rest
  declaration : Rest
  within : Rest
  reached : Rest
  rest : Rest
  split : tokens = before ++ declaration
  front : before.bare = lexed front
  starts : Reaches keyword (within ++ reached) declaration
  region : within.bare = lexed region
  reaches : Reaches last rest reached
  ends : rest.bare = lexed behind ++ [.sign "EOF"]

theorem exists_cut {front keyword region last behind : List Char} (first : Lettered keyword) (second : Lettered last)
    {tokens : Rest} (bare : tokens.bare = lexed (front ++ (keyword ++ (region ++ (last ++ behind)))) ++ [.sign "EOF"]) :
    Nonempty (Cut front keyword region last behind tokens) := by
  rw [lexed_lettered first, lexed_lettered second] at bare
  simp only [List.append_assoc] at bare
  obtain ⟨before, declaration, rfl, front, bare⟩ := List.map_eq_append_iff.1 bare
  obtain ⟨run, later, rfl, starts, bare⟩ := List.map_eq_append_iff.1 bare
  obtain ⟨within, reached, rfl, region, bare⟩ := List.map_eq_append_iff.1 bare
  obtain ⟨run', rest, rfl, reaches, ends⟩ := List.map_eq_append_iff.1 bare
  exact ⟨⟨before, _, within, _, rest, rfl, front, ⟨run, rfl, starts⟩, region, ⟨run', rfl, reaches⟩, ends⟩⟩

end ScriptKernel.MiniRust
