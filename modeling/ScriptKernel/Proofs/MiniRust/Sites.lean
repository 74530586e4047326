import ScriptKernel.MiniRust.Grammar
import ScriptKernel.Proofs.MiniRust.Cursor
import ScriptKernel.Proofs.Parse.Transfer
import ScriptKernel.Proofs.Parse.Words

/-!
Streams that differ in trivia, and streams that part. Going along a stream, every
lexeme stands in code, in a type, in a comment, in a string or between the angle
brackets of a type. Two streams are alike when they have the same lexemes but for
gaps, which stand in code or in a type outside angle brackets: where one has
blanks and comments the other has them too, though others. What skips trivia
comes out of a gap on both sides, and nothing else of the grammar looks into one.

Streams may also be alike only up to a fork, a word or a parenthesis that both of
them have. What is behind a fork is left to those who read it.
-/

namespace ScriptKernel.MiniRust

open ScriptKernel.Transfer (Carries)

/-- What surrounds the next lexeme. -/
inductive Site where
  | code
  /-- Behind the sign of a type, before the type itself. -/
  | typeStart
  | typeReference
  | typeWord
  | angles (depth : Int)
  /-- In a comment, which stands in code or before a type. -/
  | comment (beforeType : Bool)
  | string (escaped : Bool)
deriving Repr, DecidableEq

def blankTexts : List String := [" ", "\t", "\r", "\x0c", "\n"]

def hidden : List String := blankTexts ++ ["//"]

def turning : List String := ["\"", ":", "->"]

namespace Site

def base (beforeType : Bool) : Site :=
  if beforeType then .typeStart else .code

def stepCode (text : String) : Site :=
  if text = "\"" then .string false
  else if text = "//" then .comment false
  else if text = ":" ∨ text = "->" then .typeStart
  else .code

def stepType (text : String) : Site :=
  if isWordText text then .typeWord
  else if text = "<" then .angles 1
  else stepCode text

def step (site : Site) (text : String) : Site :=
  match site with
  | .code => stepCode text
  | .typeStart =>
    if text ∈ blankTexts then .typeStart
    else if text = "//" then .comment true
    else if text = "&" then .typeReference
    else stepType text
  | .typeReference => if text = "&" then .typeReference else stepType text
  | .typeWord => stepType text
  | .angles depth =>
    let depth := if text = "<" then depth + 1 else if text = ">" then depth - 1 else depth
    if depth = 0 then .code else .angles depth
  | .comment beforeType => if text = "\n" then base beforeType else .comment beforeType
  | .string true => .string false
  | .string false =>
    if text = "\\" then .string true
    else if text = "\"" then .code
    else .string false

def through (site : Site) (texts : List String) : Site :=
  texts.foldl step site

/-- Whether trivia may stand there without being part of a lexeme, a comment or
an argument of a type. -/
def isOpen : Site → Bool
  | .code | .typeStart | .typeReference | .typeWord => true
  | _ => false

def behindGap : Site → Site
  | .typeStart => .typeStart
  | _ => .code

theorem stepCode_plain {text : String} (plain : text ∉ hidden ++ turning) : stepCode text = .code := by
  simp only [hidden, blankTexts, turning, List.mem_append, List.mem_cons, List.not_mem_nil, or_false, not_or] at plain
  simp [stepCode, plain]

theorem stepCode_blank {text : String} (blank : text ∈ blankTexts) : stepCode text = .code := by
  revert text
  decide

end Site

def Trivial (l : Lexeme) : Prop :=
  l.synthetic = false ∧ l.text ∈ hidden

structure Gap (g : Rest) : Prop where
  begins : ∃ l more, g = l :: more ∧ Trivial l
  skipped : ∀ semicolons rest, skipFrom semicolons false (g ++ rest) = skipFrom semicolons false rest

/-- A place at which streams may part: a name, a keyword or a closing parenthesis
at both cursors. Some texts are barred before it, except where they are part of
a string, a comment or the arguments of a type. -/
structure Fork where
  parts : Rest → Rest → Prop
  start : String
  barred : List String
  heads : ∀ {rest rest'}, parts rest rest' → ∃ l more l' more', rest = l :: more ∧ rest' = l' :: more' ∧
    l'.bare = l.bare ∧ l.synthetic = false ∧ l.text = start
  starts : start = ")" ∨ Rest.isNameStart [.source start] = true
  word : ∀ {rest rest'}, parts rest rest' → Rest.word rest' = Rest.word rest

theorem not_isNameStart_of_isDigits {l : Lexeme} (digits : l.isDigits = true) (more : Rest) :
    Rest.isNameStart (l :: more) = false := by
  have digit : l.text.toList.all Char.isDigit = true := by
    simp only [Lexeme.isDigits, isDigitText, Bool.and_eq_true] at digits
    exact digits.2.2
  rw [Rest.isNameStart, Bool.and_eq_false_iff]
  right
  cases chars : l.text.toList with
  | nil => rfl
  | cons c text =>
    rw [chars, List.all_cons, Bool.and_eq_true] at digit
    by_contra start
    have name : Text.isNameStart c = true := by simpa using start
    rw [Written.not_isDigit_of_isNameStart name] at digit
    exact absurd digit.1 Bool.false_ne_true

namespace Fork

variable {fork : Fork} {rest rest' : Rest}

def none : Fork where
  parts _ _ := False
  start := "_"
  barred := []
  heads := nofun
  starts := Or.inr rfl
  word := nofun

/-- Nothing but digits stands before a name at which streams part. -/
def Near (fork : Fork) (rest : Rest) : Prop :=
  ∃ digits more more', (∀ l ∈ digits, l.isDigits = true) ∧ fork.parts more more' ∧ Rest.isNameStart more = true ∧
    rest = digits ++ more

theorem starts_at (parts : fork.parts rest rest') : Rest.isNameStart rest = true ∨ Rest.isAt ")" rest = true := by
  obtain ⟨l, more, l', more', rfl, rfl, -, source, start⟩ := fork.heads parts
  have same : l.bare = .source fork.start := by
    rw [Lexeme.bare, start, source]
    rfl
  rcases fork.starts with paren | name
  · right
    simp [Rest.isAt, source, start, paren]
  · left
    rw [← same] at name
    exact name

theorem start_isDigits {l : Lexeme} (start : l.text = fork.start) : l.isDigits = false := by
  rcases fork.starts with paren | name
  · have none : isDigitText ")" = false := by decide
    rw [Lexeme.isDigits, start, paren, none, Bool.and_false]
  · cases digits : l.isDigits with
    | false => rfl
    | true =>
      have digits' : (Lexeme.source fork.start).isDigits = true := by
        rw [Lexeme.isDigits, Bool.and_eq_true] at digits
        rw [← start]
        simpa [Lexeme.isDigits] using digits.2
      rw [not_isNameStart_of_isDigits digits'] at name
      cases name

theorem isWordText_start (fork : Fork) (other : fork.start ≠ ")") : isWordText fork.start = true := by
  have name := fork.starts.resolve_left other
  have starts := Bool.and_eq_true_iff.1 name
  simpa [Lexeme.isWord] using starts.1

theorem start_ne (fork : Fork) {text : String} (unlike : isWordText text = false ∧ text ≠ ")") : fork.start ≠ text := by
  intro same
  have word := fork.isWordText_start (same ▸ unlike.2)
  rw [same, unlike.1] at word
  cases word

theorem visible (fork : Fork) : fork.start ∉ hidden ++ turning := by
  have unlike : ∀ text ∈ hidden ++ turning, isWordText text = false ∧ text ≠ ")" := by decide
  exact fun member => fork.start_ne (unlike _ member) rfl

theorem turns (fork : Fork) : Site.step .code fork.start = .code :=
  Site.stepCode_plain fork.visible

end Fork

/-- Streams from a site on that differ in places and in gaps, and perhaps from a
fork on. A word does not run into a fork, though a number may. -/
inductive Alike (fork : Fork) : Site → Rest → Rest → Prop
  | ended {site : Site} {l l' : Lexeme} (marker : l.synthetic = true ∧ l.text = "EOF") (same : l'.bare = l.bare) :
      Alike fork site [l] [l']
  | same {site : Site} {l l' : Lexeme} {rest rest' : Rest} (source : l.synthetic = false) (same : l'.bare = l.bare)
      (passes : site.isOpen = true → l.text ∉ fork.barred)
      (apart : fork.Near rest → l.isWord = true → l.isDigits = true)
      (later : Alike fork (site.step l.text) rest rest') : Alike fork site (l :: rest) (l' :: rest')
  | gap {site : Site} {g g' rest rest' : Rest} (open_ : site.isOpen = true) (first : Gap g) (second : Gap g')
      (later : Alike fork site.behindGap rest rest') : Alike fork site (g ++ rest) (g' ++ rest')
  | part {site : Site} {rest rest' : Rest} (open_ : site.isOpen = true) (turns : site.step fork.start = .code)
      (parts : fork.parts rest rest') : Alike fork site rest rest'

theorem text_of_bare {l l' : Lexeme} (same : l'.bare = l.bare) : l'.text = l.text := by
  rw [← Lexeme.bare_text, same, Lexeme.bare_text]

theorem synthetic_of_bare {l l' : Lexeme} (same : l'.bare = l.bare) : l'.synthetic = l.synthetic := by
  rw [← Lexeme.bare_synthetic, same, Lexeme.bare_synthetic]

namespace Alike

variable {fork : Fork} {site : Site} {rest rest' : Rest}

theorem heads (alike : Alike fork site rest rest') : ∃ l more l' more', rest = l :: more ∧ rest' = l' :: more' ∧
    (l'.bare = l.bare ∨ Trivial l ∧ Trivial l') := by
  cases alike with
  | ended marker same => exact ⟨_, _, _, _, rfl, rfl, Or.inl same⟩
  | same source same later => exact ⟨_, _, _, _, rfl, rfl, Or.inl same⟩
  | gap open_ first second later =>
    obtain ⟨l, more, rfl, trivial⟩ := first.begins
    obtain ⟨l', more', rfl, trivial'⟩ := second.begins
    exact ⟨_, _, _, _, rfl, rfl, Or.inr ⟨trivial, trivial'⟩⟩
  | part open_ turns parts =>
    obtain ⟨l, more, l', more', rfl, rfl, same, -⟩ := fork.heads parts
    exact ⟨_, _, _, _, rfl, rfl, Or.inl same⟩

theorem asks {α : Type} {answer : Lexeme → α} {trivially : α} (unaware : ∀ l, answer l.bare = answer l)
    (trivial : ∀ l, Trivial l → answer l = trivially) (alike : Alike fork site rest rest') :
    ∃ l more l' more', rest = l :: more ∧ rest' = l' :: more' ∧ answer l' = answer l := by
  obtain ⟨l, more, l', more', rfl, rfl, same | ⟨first, second⟩⟩ := alike.heads
  · exact ⟨l, more, l', more', rfl, rfl, by rw [← unaware, same, unaware]⟩
  · exact ⟨l, more, l', more', rfl, rfl, by rw [trivial l first, trivial l' second]⟩

theorem isAt (alike : Alike fork site rest rest') {text : String} (visible : text ∉ hidden) :
    Rest.isAt text rest' = Rest.isAt text rest := by
  have unseen : ∀ l, Trivial l → (!l.synthetic && l.text == text) = false := by
    intro l trivial
    have other : l.text ≠ text := fun same => visible (same ▸ trivial.2)
    simp [other]
  obtain ⟨l, more, l', more', rfl, rfl, same⟩ := asks (fun _ => rfl) unseen alike
  exact same

theorem isWord_trivial {l : Lexeme} (trivial : Trivial l) : l.isWord = false := by
  have none : ∀ text ∈ hidden, isWordText text = false := by decide
  simp [Lexeme.isWord, none l.text trivial.2]

theorem isNameStart (alike : Alike fork site rest rest') : Rest.isNameStart rest' = Rest.isNameStart rest := by
  have unseen : ∀ l, Trivial l → (l.isWord && l.text.toList.head?.any Text.isNameStart) = false := by
    intro l trivial
    rw [isWord_trivial trivial, Bool.false_and]
  obtain ⟨l, more, l', more', rfl, rfl, same⟩ := asks (fun _ => rfl) unseen alike
  exact same

theorem isDigitStart (alike : Alike fork site rest rest') : Rest.isDigitStart rest' = Rest.isDigitStart rest := by
  have unseen : ∀ l, Trivial l → (!l.synthetic && l.text.toList.head?.any Char.isDigit) = false := by
    intro l trivial
    have none : ∀ text ∈ hidden, text.toList.head?.any Char.isDigit = false := by decide
    rw [none l.text trivial.2, Bool.and_false]
  obtain ⟨l, more, l', more', rfl, rfl, same⟩ := asks (fun _ => rfl) unseen alike
  exact same

theorem synthetic_head (alike : Alike fork site rest rest') (ctx ctx' : Context) :
    (ctx'.peek rest').synthetic = (ctx.peek rest).synthetic := by
  obtain ⟨l, more, l', more', rfl, rfl, same⟩ := asks (fun _ => rfl) (fun l trivial => trivial.1) alike
  exact same

theorem atEnd (alike : Alike fork site rest rest') {ctx ctx' : Context} (aliases : ctx'.aliases = ctx.aliases) :
    ctx'.atEnd rest' = ctx.atEnd rest := by
  have unseen : ∀ l, Trivial l → (l.synthetic && l.text == ctx.aliases.endOfInput) = false := by
    intro l trivial
    rw [trivial.1, Bool.false_and]
  obtain ⟨l, more, l', more', rfl, rfl, same⟩ := asks (fun _ => rfl) unseen alike
  rw [Context.atEnd, aliases]
  exact same

theorem tailAt (alike : Alike fork site rest rest') {text : String} (visible : text ∉ hidden)
    (here : Rest.isAt text rest = true) :
    Alike fork (site.step text) rest.tail rest'.tail ∨ text = fork.start ∧ fork.parts rest rest' := by
  cases alike with
  | ended marker same => simp [Rest.isAt, marker.1] at here
  | same source same passes apart later =>
    rename_i l l' more more'
    have found : l.text = text := by simpa [Rest.isAt, source] using here
    rw [← found]
    exact Or.inl later
  | gap open_ first second later =>
    obtain ⟨l, more, rfl, trivial⟩ := first.begins
    have found : l.text = text := by simpa [Rest.isAt, trivial.1] using here
    exact absurd trivial.2 (found ▸ visible)
  | part open_ turns parts =>
    obtain ⟨l, more, l', more', rfl, rfl, same, source, start⟩ := fork.heads parts
    have found : l.text = text := by simpa [Rest.isAt, source] using here
    exact Or.inr ⟨found.symm.trans start, parts⟩

theorem parts_of_barred (alike : Alike fork site rest rest') (open_ : site.isOpen = true) {text : String}
    (visible : text ∉ hidden) (barred : text ∈ fork.barred) (here : Rest.isAt text rest = true) :
    fork.parts rest rest' := by
  cases alike with
  | ended marker same => simp [Rest.isAt, marker.1] at here
  | same source same passes apart later =>
    rename_i l l' more more'
    have found : l.text = text := by simpa [Rest.isAt, source] using here
    exact absurd barred (found ▸ passes open_)
  | gap open_ first second later =>
    obtain ⟨l, more, rfl, trivial⟩ := first.begins
    have found : l.text = text := by simpa [Rest.isAt, trivial.1] using here
    exact absurd trivial.2 (found ▸ visible)
  | part open_ turns parts => exact parts

theorem span {within : Site} {p : Lexeme → Bool} (unaware : ∀ l, p l.bare = p l)
    (source : ∀ l, p l = true → l.synthetic = false) (solid : ∀ l, Trivial l → p l = false)
    (again : ∀ l, p l = true → within.step l.text = within) (first : ∀ l, p l = true → site.step l.text = within)
    (ends : within = .code → ∀ l, l.text = fork.start → p l = false) (alike : Alike fork site rest rest') :
    Rest.text (rest'.takeWhile p) = Rest.text (rest.takeWhile p) ∧
      (rest.dropWhile p = rest ∧ rest'.dropWhile p = rest' ∨ Alike fork within (rest.dropWhile p) (rest'.dropWhile p)) := by
  have stays (more more' : Rest) {l l' : Lexeme} (other : p l = false) (other' : p l' = false) :
      Rest.text ((l' :: more').takeWhile p) = Rest.text ((l :: more).takeWhile p) ∧
        (l :: more).dropWhile p = l :: more ∧ (l' :: more').dropWhile p = l' :: more' := by
    simp [other, other']
  induction alike with
  | ended marker same =>
    rename_i l l'
    have other : p l = false := by
      cases answer : p l with
      | false => rfl
      | true => exact absurd (source l answer) (by rw [marker.1]; decide)
    obtain ⟨texts, drops⟩ := stays [] [] other (by rw [← unaware, same, unaware, other])
    exact ⟨texts, Or.inl drops⟩
  | same real same passes apart later ih =>
    rename_i site l l' rest rest'
    have answer : p l' = p l := by rw [← unaware, same, unaware]
    by_cases holds : p l = true
    · obtain ⟨texts, behind⟩ := ih fun l' taken => by rw [first l holds, again l' taken]
      have reached : Alike fork within (rest.dropWhile p) (rest'.dropWhile p) := by
        rcases behind with ⟨none, none'⟩ | reached
        · rw [none, none', ← first l holds]
          exact later
        · exact reached
      have taken : p l' = true := by rw [answer, holds]
      rw [List.takeWhile_cons_of_pos taken, List.takeWhile_cons_of_pos holds, List.dropWhile_cons_of_pos taken,
        List.dropWhile_cons_of_pos holds]
      refine ⟨?_, Or.inr reached⟩
      have joined (l : Lexeme) (run : Rest) : Rest.text (l :: run) = l.text ++ Rest.text run := by
        simp [Rest.text]
      rw [joined, joined, text_of_bare same, texts]
    · have other : p l = false := by simpa using holds
      obtain ⟨texts, drops⟩ := stays rest rest' other (by rw [answer, other])
      exact ⟨texts, Or.inl drops⟩
  | gap open_ g g' later ih =>
    obtain ⟨l, more, rfl, trivial⟩ := g.begins
    obtain ⟨l', more', rfl, trivial'⟩ := g'.begins
    obtain ⟨texts, drops⟩ := stays (more ++ _) (more' ++ _) (solid l trivial) (solid l' trivial')
    exact ⟨texts, Or.inl drops⟩
  | part open_ turns parts =>
    obtain ⟨l, more, l', more', rfl, rfl, same, source, start⟩ := fork.heads parts
    have other : p l = false := by
      cases answer : p l with
      | false => rfl
      | true =>
        have code := first l answer
        rw [start, turns] at code
        exact absurd answer (by simp [ends code.symm l start])
    obtain ⟨texts, drops⟩ := stays more more' other (by rw [← unaware, same, unaware, other])
    exact ⟨texts, Or.inl drops⟩

theorem word (alike : Alike fork .code rest rest') : Rest.word rest' = Rest.word rest ∧
    (Alike fork .code (Rest.afterWord rest) (Rest.afterWord rest') ∨
      fork.Near rest ∧ (Rest.isNameStart rest = true → fork.parts rest rest')) := by
  have alone {l l' : Lexeme} (more more' : Rest) (other : l.isWord = false) (other' : l'.isWord = false) :
      Rest.word (l' :: more') = Rest.word (l :: more) ∧ Rest.afterWord (l :: more) = l :: more ∧
        Rest.afterWord (l' :: more') = l' :: more' := by
    simp [Rest.word, Rest.afterWord, other, other']
  have unword {l l' : Lexeme} (same : l'.bare = l.bare) : l'.isWord = l.isWord := by
    rw [← Lexeme.isWord_bare, same, Lexeme.isWord_bare]
  generalize at_ : Site.code = site at alike
  induction alike with
  | ended marker same =>
    rename_i l l'
    have other : l.isWord = false := by simp [Lexeme.isWord, marker.1]
    obtain ⟨words, stays, stays'⟩ := alone [] [] other ((unword same).trans other)
    rw [stays, stays']
    exact ⟨words, Or.inl (.ended marker same)⟩
  | same source same passes apart later ih =>
    rename_i site l l' rest rest'
    subst at_
    by_cases word : l.isWord = true
    · have word' : l'.isWord = true := (unword same).trans word
      have inCode : Site.step .code l.text = .code := by
        apply Site.stepCode_plain
        have none : ∀ text ∈ hidden ++ turning, isWordText text = false := by decide
        intro member
        rw [Lexeme.isWord, none _ member, Bool.and_false] at word
        cases word
      have taken {l : Lexeme} (word : l.isWord = true) (rest : Rest) :
          Rest.word (l :: rest) = l.text ++ Rest.word rest ∧ Rest.afterWord (l :: rest) = Rest.afterWord rest := by
        simp [Rest.word, Rest.afterWord, Rest.text, word]
      obtain ⟨words, behind⟩ := ih inCode.symm
      rw [(taken word rest).1, (taken word rest).2, (taken word' rest').1, (taken word' rest').2, words, text_of_bare same]
      refine ⟨rfl, ?_⟩
      rcases behind with alike | ⟨near, -⟩
      · rw [inCode] at alike
        exact Or.inl alike
      · have digits := apart near word
        refine Or.inr ⟨?_, fun name => absurd name ?_⟩
        · obtain ⟨run, more, more', all, parts, named, rfl⟩ := near
          exact ⟨l :: run, more, more', List.forall_mem_cons.2 ⟨digits, all⟩, parts, named, rfl⟩
        · simp [not_isNameStart_of_isDigits digits]
    · have other : l.isWord = false := by simpa using word
      obtain ⟨words, stays, stays'⟩ := alone rest rest' other ((unword same).trans other)
      rw [stays, stays']
      exact ⟨words, Or.inl (.same source same passes apart later)⟩
  | gap open_ first second later ih =>
    subst at_
    obtain ⟨l, more, rfl, trivial⟩ := first.begins
    obtain ⟨l', more', rfl, trivial'⟩ := second.begins
    obtain ⟨words, stays, stays'⟩ := alone (more ++ _) (more' ++ _) (isWord_trivial trivial) (isWord_trivial trivial')
    rw [List.cons_append, List.cons_append, stays, stays']
    exact ⟨words, Or.inl (.gap open_ first second later)⟩
  | part open_ turns parts =>
    subst at_
    refine ⟨fork.word parts, ?_⟩
    rename_i rest rest'
    rcases fork.starts_at parts with name | paren
    · exact Or.inr ⟨⟨[], rest, rest', List.forall_mem_nil _, parts, name, rfl⟩, fun _ => parts⟩
    · -- A parenthesis is no word.
      have known := fork.heads parts
      obtain ⟨l, more, l', more', rfl, rfl, same, source, start⟩ := known
      have text : l.text = ")" := by simpa [Rest.isAt, source] using paren
      have other : l.isWord = false := by
        rw [Lexeme.isWord, text]
        simp [show isWordText ")" = false by decide]
      obtain ⟨words, stays, stays'⟩ := alone more more' other ((unword same).trans other)
      rw [stays, stays']
      exact Or.inl (.part open_ turns parts)

theorem number (alike : Alike fork .code rest rest') :
    Rest.text (Parser.spanNumber false rest').1 = Rest.text (Parser.spanNumber false rest).1 ∧
      Alike fork .code (Parser.spanNumber false rest).2 (Parser.spanNumber false rest').2 := by
  have whole (rest : Rest) : Parser.spanNumber false rest =
      (rest.takeWhile (·.isDigits), rest.dropWhile (·.isDigits)) := by
    unfold Parser.spanNumber
    dsimp only
    split
    · rw [Bool.false_and, Bool.false_and, if_neg Bool.false_ne_true]
    · rfl
  have solid (l : Lexeme) (trivial : Trivial l) : l.isDigits = false := by
    have none : ∀ text ∈ hidden, isDigitText text = false := by decide
    rw [Lexeme.isDigits, none _ trivial.2, Bool.and_false]
  have stays (l : Lexeme) (digits : l.isDigits = true) : Site.step .code l.text = .code := by
    apply Site.stepCode_plain
    have none : ∀ text ∈ hidden ++ turning, isDigitText text = false := by decide
    intro member
    rw [Lexeme.isDigits, none _ member, Bool.and_false] at digits
    cases digits
  rw [whole, whole]
  obtain ⟨texts, ⟨none, none'⟩ | reached⟩ := alike.span (p := Lexeme.isDigits) Lexeme.isDigits_bare
    (fun l digits => by simpa using (Bool.and_eq_true_iff.1 digits).1) solid stays stays
    fun _ l start => fork.start_isDigits start
  · rw [none, none']
    exact ⟨texts, alike⟩
  · exact ⟨texts, reached⟩

theorem skip (semicolons commented beforeType : Bool) (plain : beforeType = true → semicolons = false)
    (at_ : site = if commented then .comment beforeType else .base beforeType) (alike : Alike fork site rest rest') :
    Alike fork (.base beforeType) (skipFrom semicolons commented rest) (skipFrom semicolons commented rest') := by
  induction alike generalizing commented with
  | ended marker same =>
    rename_i l l'
    have stays (semicolons commented : Bool) {l : Lexeme} (real : l.synthetic = true) :
        skipFrom semicolons commented [l] = [l] := by
      cases commented with
      | true => simp [skipFrom, real]
      | false => simp [skipFrom, real, Lexeme.isSpace]
    rw [stays _ _ marker.1, stays _ _ ((synthetic_of_bare same).trans marker.1)]
    exact .ended marker same
  | same source same passes apart later ih =>
    rename_i site l l' rest rest'
    have source' : l'.synthetic = false := (synthetic_of_bare same).trans source
    have text := text_of_bare same
    have space : l'.isSpace true = l.isSpace true := by
      rw [← Lexeme.isSpace_bare, same, Lexeme.isSpace_bare]
    subst at_
    cases commented with
    | true =>
      have taken {l : Lexeme} (source : l.synthetic = false) (rest : Rest) :
          skipFrom semicolons true (l :: rest) = skipFrom semicolons (l.text != "\n") rest := by
        simp [skipFrom, source]
      rw [taken source, taken source', text]
      apply ih
      by_cases ends : l.text = "\n"
      · simp [Site.step, ends]
      · simp [Site.step, ends]
    | false =>
      by_cases blank : l.isSpace true = true
      · have taken {l : Lexeme} (blank : l.isSpace true = true) (rest : Rest) :
            skipFrom semicolons false (l :: rest) = skipFrom semicolons false rest := by
          simp [skipFrom, blank]
        rw [taken blank, taken (by rw [space, blank])]
        apply ih
        have member : l.text ∈ blankTexts := by
          simpa [Lexeme.isSpace, source, blankTexts, or_assoc] using blank
        cases beforeType with
        | true => simp [Site.base, Site.step, member]
        | false => simp [Site.base, Site.step, Site.stepCode_blank member]
      have ink : l.isSpace true = false := by simpa using blank
      by_cases opens : l.text = "//"
      · have taken {l : Lexeme} (ink : l.isSpace true = false) (source : l.synthetic = false) (opens : l.text = "//")
            (rest : Rest) : skipFrom semicolons false (l :: rest) = skipFrom semicolons true rest := by
          simp [skipFrom, ink, source, opens]
        rw [taken ink source opens, taken (by rw [space, ink]) source' (text.trans opens)]
        apply ih
        cases beforeType with
        | true => simp [Site.base, Site.step, opens, blankTexts]
        | false => simp [Site.base, Site.step, Site.stepCode, opens]
      by_cases divides : (semicolons && l.text == ";") = true
      · have taken {l : Lexeme} (ink : l.isSpace true = false) (source : l.synthetic = false)
            (divides : (semicolons && l.text == ";") = true) (code : l.text ≠ "//") (rest : Rest) :
            skipFrom semicolons false (l :: rest) = skipFrom semicolons false rest := by
          simp only [skipFrom, ink, source, code, divides]
          simp
        rw [taken ink source divides opens, taken (by rw [space, ink]) source' (by rw [text, divides]) (by rwa [text])]
        apply ih
        rw [Bool.and_eq_true, beq_iff_eq] at divides
        cases beforeType with
        | true =>
          rw [plain rfl] at divides
          exact absurd divides.1 (by decide)
        | false => simp [Site.base, Site.step, Site.stepCode, divides.2]
      · have stays {l : Lexeme} (ink : l.isSpace true = false) (source : l.synthetic = false)
            (single : (semicolons && l.text == ";") = false) (code : l.text ≠ "//") (rest : Rest) :
            skipFrom semicolons false (l :: rest) = l :: rest := by
          simp only [skipFrom, ink, source, code, single]
          simp
        have single : (semicolons && l.text == ";") = false := by simpa using divides
        rw [stays ink source single opens, stays (by rw [space, ink]) source' (by rw [text, single]) (by rwa [text])]
        exact .same source same passes apart later
  | gap open_ first second later ih =>
    subst at_
    cases commented with
    | true => cases open_
    | false =>
      rw [if_neg Bool.false_ne_true] at ih
      rw [first.skipped, second.skipped]
      apply ih
      cases beforeType with
      | true => rfl
      | false => rfl
  | part open_ turns parts =>
    subst at_
    cases commented with
    | true => cases open_
    | false =>
      have known := fork.heads parts
      obtain ⟨l, more, l', more', rfl, rfl, same, source, start⟩ := known
      have stays {l : Lexeme} (source : l.synthetic = false) (start : l.text = fork.start) (rest : Rest) :
          skipFrom semicolons false (l :: rest) = l :: rest := by
        have other {text : String} (unlike : isWordText text = false ∧ text ≠ ")") : l.text ≠ text :=
          start ▸ fork.start_ne unlike
        have unblank : l.text ∉ blankTexts := by
          have unlike : ∀ text ∈ blankTexts, isWordText text = false ∧ text ≠ ")" := by decide
          exact fun blank => other (unlike _ blank) rfl
        have ink : l.isSpace true = false := by
          simpa [Lexeme.isSpace, source, blankTexts, and_assoc] using unblank
        have semicolon : l.text ≠ ";" := other (by decide)
        have solid : Solid semicolons l := ⟨ink, Or.inr ⟨other (by decide), by simp [semicolon]⟩⟩
        exact skipFrom_solid solid rest
      have source' : l'.synthetic = false := (synthetic_of_bare same).trans source
      rw [stays source start, stays source' ((text_of_bare same).trans start)]
      exact .part open_ turns parts

/-- Behind a type the streams go on in code, if the lexeme at the cursor belongs
neither to the type nor to the trivia before it. -/
theorem toCode (alike : Alike fork site rest rest') (open_ : site.isOpen = true)
    (behind : ∀ l more, rest = l :: more → l.synthetic = false → site.step l.text = .stepCode l.text) :
    Alike fork .code rest rest' := by
  cases alike with
  | ended marker same => exact .ended marker same
  | same source same passes apart later =>
    rw [behind _ _ rfl source] at later
    exact .same source same (fun _ => passes open_) apart later
  | gap open_ first second later =>
    obtain ⟨l, more, rfl, trivial⟩ := first.begins
    have turns := behind l _ rfl trivial.1
    have inner : site.behindGap = .code := by
      cases site with
      | typeStart =>
        -- Before a type trivia do not lead into code.
        have stays : ∀ text ∈ hidden, Site.step .typeStart text ≠ .stepCode text := by decide
        exact absurd turns (stays l.text trivial.2)
      | _ => rfl
    rw [inner] at later
    exact .gap rfl first second later
  | part open_ turns parts => exact .part rfl fork.turns parts

theorem angles {depth : Int} (ctx ctx' : Context) (aliases : ctx'.aliases = {}) (aliases' : ctx.aliases = {})
    (alike : Alike fork (.angles depth) rest rest') :
    Alike fork .code (skipAngles ctx depth rest) (skipAngles ctx' depth rest') := by
  generalize at_ : Site.angles depth = site at alike
  induction alike generalizing depth with
  | ended marker same =>
    rename_i l l'
    have ended (ctx : Context) (plain : ctx.aliases = {}) {l : Lexeme} (marker : l.synthetic = true ∧ l.text = "EOF") :
        ctx.atEnd [l] = true := by
      simp [Context.atEnd, plain, marker]
    have marker' : l'.synthetic = true ∧ l'.text = "EOF" :=
      ⟨(synthetic_of_bare same).trans marker.1, (text_of_bare same).trans marker.2⟩
    rw [skipAngles, if_pos (ended ctx aliases' marker), skipAngles, if_pos (ended ctx' aliases marker')]
    exact .ended marker same
  | same source same passes apart later ih =>
    rename_i site l l' rest rest'
    subst at_
    have inside (ctx : Context) {l : Lexeme} (source : l.synthetic = false) (rest : Rest) :
        ¬ctx.atEnd (l :: rest) = true := by
      simp [Context.atEnd, source]
    have source' : l'.synthetic = false := (synthetic_of_bare same).trans source
    rw [skipAngles, if_neg (inside ctx source rest), skipAngles, if_neg (inside ctx' source' rest'), text_of_bare same]
    obtain ⟨next, counted⟩ :
        ∃ next, next = if l.text = "<" then depth + 1 else if l.text = ">" then depth - 1 else depth := ⟨_, rfl⟩
    have stepped : Site.step (.angles depth) l.text = if next = 0 then .code else .angles next := by
      rw [counted]
      rfl
    rw [stepped] at later ih
    dsimp only
    rw [← counted]
    by_cases closed : next = 0
    · rw [if_pos closed] at later
      rw [if_pos closed, if_pos closed]
      exact later
    · rw [if_neg closed] at ih
      rw [if_neg closed, if_neg closed]
      exact ih rfl
  | gap open_ =>
    subst at_
    cases open_
  | part open_ =>
    subst at_
    cases open_

theorem enterAngles (alike : Alike fork site rest rest') (opens : site.step "<" = .angles 1)
    (bracket : Rest.isAt "<" rest = true) : Alike fork (.angles 0) rest rest' := by
  cases alike with
  | ended marker same => simp [Rest.isAt, marker.1] at bracket
  | same source same passes apart later =>
    rename_i l l' more more'
    have text : l.text = "<" := by simpa [Rest.isAt, source] using bracket
    rw [text, opens] at later
    refine .same source same (fun open_ => absurd open_ (by decide)) apart ?_
    rw [text]
    exact later
  | gap open_ first second later =>
    obtain ⟨l, more, rfl, trivial⟩ := first.begins
    have text : l.text = "<" := by simpa [Rest.isAt, trivial.1] using bracket
    exact absurd trivial.2 (by rw [text]; decide)
  | part open_ turns parts =>
    obtain ⟨l, more, l', more', rfl, rfl, same, source, start⟩ := fork.heads parts
    have text : l.text = "<" := by simpa [Rest.isAt, source] using bracket
    exact absurd (start.symm.trans text) (fork.start_ne (by decide))

def isReference (l : Lexeme) : Bool :=
  !l.synthetic && l.text == "&"

theorem isReference_iff {l : Lexeme} : isReference l = true ↔ l.synthetic = false ∧ l.text = "&" := by
  simp [isReference]

theorem typeBehind {ctx ctx' : Context} (aliases : ctx'.aliases = {}) (aliases' : ctx.aliases = {})
    (at_ : site = .typeStart ∨ site = .typeReference)
    (fresh : ∀ l more, rest = l :: more → isReference l = false ∧ (site = .typeStart → ¬Trivial l))
    (alike : Alike fork site rest rest') :
    let reached := Rest.afterWord rest
    let reached' := Rest.afterWord rest'
    Alike fork .code (if Rest.isAt "<" reached then skipAngles ctx 0 reached else reached)
      (if Rest.isAt "<" reached' then skipAngles ctx' 0 reached' else reached') := by
  intro reached reached'
  have words (l : Lexeme) (word : l.isWord = true) : l.synthetic = false ∧ isWordText l.text = true := by
    simpa [Lexeme.isWord] using word
  have no_word (text : String) (member : text ∈ hidden ++ ["&"]) : isWordText text = false := by
    revert text
    decide
  have first (l : Lexeme) (word : l.isWord = true) : site.step l.text = .typeWord := by
    obtain ⟨-, word⟩ := words l word
    have other {text : String} (member : text ∈ hidden ++ ["&"]) : l.text ≠ text := by
      rintro rfl
      rw [no_word _ member] at word
      cases word
    have unblank : l.text ∉ blankTexts := fun blank => other (List.mem_append_left _ (List.mem_append_left _ blank)) rfl
    have comment : l.text ≠ "//" := other (by decide)
    have reference : l.text ≠ "&" := other (by decide)
    rcases at_ with rfl | rfl
    · simp [Site.step, Site.stepType, unblank, comment, reference, word]
    · simp [Site.step, Site.stepType, reference, word]
  have again (l : Lexeme) (word : l.isWord = true) : Site.step .typeWord l.text = .typeWord := by
    simp [Site.step, Site.stepType, (words l word).2]
  have ended : ∀ l more, reached = l :: more → l.isWord = false := by
    intro l more split
    have last : ∀ l ∈ reached.head?, ¬l.isWord = true := fun l first => by
      have holds := List.head?_dropWhile_not (fun l : Lexeme => l.isWord) rest
      rw [Option.mem_def] at first
      have shape : (rest.dropWhile fun l => l.isWord).head? = some l := first
      rw [shape] at holds
      simpa using holds
    simpa using last l (by rw [split]; rfl)
  -- Behind its word, or where there is none, the type goes on with angle brackets only.
  obtain ⟨inner, related, open_, opens, leaves⟩ : ∃ inner, Alike fork inner reached reached' ∧ inner.isOpen = true ∧
      inner.step "<" = .angles 1 ∧
      ∀ l more, reached = l :: more → l.synthetic = false → l.text ≠ "<" → inner.step l.text = .stepCode l.text := by
    rcases (alike.span Lexeme.isWord_bare (fun l word => (words l word).1) (fun l => isWord_trivial) again first
        fun open_ => absurd open_ (by decide)).2 with
      ⟨none, none'⟩ | moved
    · have here : reached = rest := none
      have here' : reached' = rest' := none'
      refine ⟨site, by rw [here, here']; exact alike, ?_, ?_, ?_⟩
      · rcases at_ with rfl | rfl
        · rfl
        · rfl
      · rcases at_ with rfl | rfl
        · rfl
        · rfl
      · intro l more split source other
        have unword : isWordText l.text = false := by simpa [Lexeme.isWord, source] using ended l more split
        obtain ⟨unreferenced, untrivial⟩ := fresh l more (here ▸ split)
        have reference : l.text ≠ "&" := by simpa [isReference, source] using unreferenced
        rcases at_ with rfl | rfl
        · have plain : l.text ∉ hidden := fun hides => untrivial rfl ⟨source, hides⟩
          have unblank : l.text ∉ blankTexts := fun blank => plain (List.mem_append_left _ blank)
          have comment : l.text ≠ "//" := by
            rintro opens
            exact plain (by rw [opens]; decide)
          simp [Site.step, Site.stepType, unblank, comment, reference, unword, other]
        · simp [Site.step, Site.stepType, reference, unword, other]
    · refine ⟨.typeWord, moved, rfl, rfl, ?_⟩
      intro l more split source other
      have unword : isWordText l.text = false := by simpa [Lexeme.isWord, source] using ended l more split
      simp [Site.step, Site.stepType, unword, other]
  have same : Rest.isAt "<" reached' = Rest.isAt "<" reached := related.isAt (by decide)
  rw [same]
  by_cases bracket : Rest.isAt "<" reached = true
  · rw [if_pos bracket, if_pos bracket]
    exact (related.enterAngles opens bracket).angles ctx ctx' aliases aliases'
  · rw [if_neg bracket, if_neg bracket]
    apply related.toCode open_
    intro l more split source
    apply leaves l more split source
    intro text
    exact bracket (by simp [split, Rest.isAt, source, text])

theorem type {ctx ctx' : Context} (skips : ctx.skipSpace = skipSpace) (skips' : ctx'.skipSpace = skipSpace)
    (aliases : ctx.aliases = {}) (aliases' : ctx'.aliases = {}) (alike : Alike fork .typeStart rest rest')
    {reached : Rest} (parsed : skipType ctx rest = .ok () reached) :
    ∃ reached', skipType ctx' rest' = .ok () reached' ∧ Alike fork .code reached reached' := by
  have skipped : Alike fork .typeStart (skipSpace rest) (skipSpace rest') :=
    alike.skip false false true (fun _ => rfl) rfl
  have solid : ∀ l more, skipSpace rest = l :: more → ¬Trivial l := by
    rintro l more split ⟨source, hides⟩
    obtain ⟨ink, stays⟩ := skipFrom_stops false false rest l (by rw [← skipSpace, split]; rfl)
    rw [source] at stays
    simp [hidden, blankTexts, Lexeme.isSpace, source] at hides ink stays
    grind
  have unaware : ∀ l, isReference l.bare = isReference l := fun _ => rfl
  have source : ∀ l, isReference l = true → l.synthetic = false := fun l reference => (isReference_iff.1 reference).1
  have step (site : Site) (at_ : site = .typeStart ∨ site = .typeReference) (l : Lexeme)
      (reference : isReference l = true) : site.step l.text = .typeReference := by
    rw [(isReference_iff.1 reference).2]
    rcases at_ with rfl | rfl
    · rfl
    · rfl
  have untrivial : ∀ l, Trivial l → isReference l = false := by
    rintro l ⟨real, hides⟩
    have other : l.text ≠ "&" := by
      intro text
      rw [text] at hides
      exact absurd hides (by decide)
    simp [isReference, other]
  have fresh : ∀ l more, (skipSpace rest).dropWhile isReference = l :: more → isReference l = false := by
    intro l more split
    have holds := List.head?_dropWhile_not isReference (skipSpace rest)
    rw [split] at holds
    simpa using holds
  simp only [skipType] at parsed ⊢
  rw [skips'] 
  rw [skips] at parsed
  cases parsed
  refine ⟨_, rfl, ?_⟩
  rcases (skipped.span unaware source untrivial (step .typeReference (Or.inr rfl)) (step .typeStart (Or.inl rfl))
      fun open_ => absurd open_ (by decide)).2 with
    ⟨none, none'⟩ | moved
  · have behind := skipped.typeBehind aliases' aliases (Or.inl rfl)
      fun l more split => ⟨fresh l more (none.trans split), fun _ => solid l more split⟩
    rw [← none, ← none'] at behind
    exact behind
  · exact moved.typeBehind aliases' aliases (Or.inr rfl)
      fun l more split => ⟨fresh l more split, fun start => absurd start (by decide)⟩

theorem uncons {l : Lexeme} {more : Rest} (alike : Alike fork site (l :: more) rest') (closed : site.isOpen = false)
    (source : l.synthetic = false) :
    ∃ l' more', rest' = l' :: more' ∧ l'.bare = l.bare ∧ Alike fork (site.step l.text) more more' := by
  generalize split : l :: more = rest at alike
  cases alike with
  | ended marker same =>
    cases split
    rw [source] at marker
    exact absurd marker.1 (by decide)
  | same real same passes apart later =>
    cases split
    exact ⟨_, _, rfl, same, later⟩
  | gap open_ =>
    rw [closed] at open_
    cases open_
  | part open_ =>
    rw [closed] at open_
    cases open_

theorem stringBody {ctx : Context} (ctx' : Context) {quote : String} (quotes : quote = "\"") (read : String)
    (alike : Alike fork (.string false) rest rest') {text : String} {reached : Rest}
    (parsed : Parser.stringBody ctx quote read rest = .ok text reached) :
    ∃ reached', Parser.stringBody ctx' quote read rest' = .ok text reached' ∧ reached' <:+ rest' ∧
      Alike fork .code reached reached' := by
  fun_induction Parser.stringBody ctx quote read rest generalizing rest' with
  | case1 => cases parsed
  | case2 => cases parsed
  | case3 read l rest real closes =>
    cases parsed
    obtain ⟨l', more', rfl, same, later⟩ := alike.uncons rfl (by simpa using real)
    have real' : ¬l'.synthetic = true := by rwa [synthetic_of_bare same]
    refine ⟨more', ?_, List.suffix_cons l' more', ?_⟩
    · rw [Parser.stringBody.eq_def]
      simp only [if_neg real', if_pos ((text_of_bare same).trans closes)]
    · simpa [Site.step, closes, quotes] using later
  | case4 => cases parsed
  | case5 => cases parsed
  | case6 read l real inside escape escaped rest source text known ih =>
    obtain ⟨l', more', rfl, same, later⟩ := alike.uncons rfl (by simpa using real)
    have behind : Site.step (.string false) l.text = .string true := by simp [Site.step, escape]
    rw [behind] at later
    obtain ⟨escaped', more', rfl, same', later⟩ := later.uncons rfl (by simpa using source)
    obtain ⟨reached', parsed', suffix, related⟩ := ih later parsed
    have real' : ¬l'.synthetic = true := by rwa [synthetic_of_bare same]
    have source' : ¬escaped'.synthetic = true := by rwa [synthetic_of_bare same']
    refine ⟨reached', ?_, suffix.trans ((List.suffix_cons _ _).trans (List.suffix_cons _ _)), related⟩
    have inside' : ¬l'.text = quote := by rwa [text_of_bare same]
    rw [Parser.stringBody.eq_def]
    simp only [if_neg real', if_neg inside', if_pos ((text_of_bare same).trans escape), if_neg source',
      text_of_bare same', known]
    exact parsed'
  | case7 => cases parsed
  | case8 read l rest real inside other ih =>
    obtain ⟨l', more', rfl, same, later⟩ := alike.uncons rfl (by simpa using real)
    have behind : Site.step (.string false) l.text = .string false := by
      rw [quotes] at inside
      simp [Site.step, other, inside]
    rw [behind] at later
    obtain ⟨reached', parsed', suffix, related⟩ := ih later parsed
    have real' : ¬l'.synthetic = true := by rwa [synthetic_of_bare same]
    refine ⟨reached', ?_, suffix.trans (List.suffix_cons _ _), related⟩
    rw [Parser.stringBody.eq_def]
    simp only [if_neg real', text_of_bare same, if_neg inside, if_neg other]
    exact parsed'

end Alike

end ScriptKernel.MiniRust
