import Mathlib.Data.List.DropRight
import ScriptKernel.Proofs.Lumen.Phrases

/-!
What the rules of Lumen see at the cursor: blanks, words, symbols and the
beginnings of phrases.
-/

namespace ScriptKernel.Lumen

open Written

structure Plain (ctx : Context) : Prop where
  skipSpace : ctx.skipSpace = Lumen.skipSpace
  skipTrivia : ctx.skipTrivia = Lumen.skipTrivia {}
  aliases : ctx.aliases = {}
  unbounded : ctx.maxDepth ≤ 0

theorem skipSpace_idem (s : Rest) : skipSpace (skipSpace s) = skipSpace s :=
  List.dropWhile_idempotent _ s

theorem skipSpace_bare (rest : Rest) : skipSpace rest.bare = (skipSpace rest).bare :=
  Rest.skipBlanks_bare false rest

@[simp] theorem skipSpace_blank (s : Rest) : skipSpace (.source " " :: s) = skipSpace s := rfl

theorem skipSpace_cons {l : Lexeme} (solid : l.isSpace false = false) (s : Rest) :
    skipSpace (l :: s) = l :: s := by
  simp [skipSpace, Rest.skipBlanks, solid]

@[simp] theorem skipSpace_sign (text : String) (s : Rest) :
    skipSpace (.sign text :: s) = .sign text :: s :=
  skipSpace_cons rfl s

def symbols : List String :=
  ["(", ")", "[", "]", ",", ";", ":", "=", "-", "\"", ".", " ", "|>", "..", "==", "!=", "<=", ">=", "<",
   ">", "+", "*", "/", "//", "%", "**"]

theorem isWordText_symbol : ∀ text ∈ symbols, isWordText text = false := by
  decide

theorem isWord_symbol {text : String} (symbol : text ∈ symbols) :
    (Lexeme.source text).isWord = false := by
  rw [Lexeme.isWord, Lexeme.source_text, isWordText_symbol text symbol, Bool.and_false]

theorem skipSpace_symbol {text : String} (symbol : text ∈ symbols) (solid : text ≠ " ") (s : Rest) :
    skipSpace (.source text :: s) = .source text :: s := by
  have blanks : ∀ text ∈ symbols, text ≠ " " → (Lexeme.source text).isSpace false = false := by
    decide
  exact skipSpace_cons (blanks text symbol solid) s

@[simp] theorem word_symbol {text : String} (symbol : text ∈ symbols) (s : Rest) :
    Rest.word (.source text :: s) = "" :=
  word_of_not_isWord (isWord_symbol symbol) s

theorem clear_symbol {text : String} (symbol : text ∈ symbols) (notPoint : text ≠ ".") (s : Rest) :
    Clear (.source text :: s) :=
  clear_source (isWordText_symbol text symbol) notPoint s

structure Begins (l : Lexeme) : Prop where
  source : l.synthetic = false
  kind : l.isWord ∨ l.text ∈ ["(", "[", "-", "\""]

theorem Begins.isAt_eq_false {l : Lexeme} (begins : Begins l) {text : String}
    (other : isWordText text = false) (none : text ∉ ["(", "[", "-", "\""]) (s : Rest) :
    Rest.isAt text (l :: s) = false := by
  simp only [Rest.isAt, begins.source, Bool.not_false, Bool.true_and, beq_eq_false_iff_ne]
  rintro rfl
  rcases begins.kind with word | symbol
  · rw [Lexeme.isWord, other, Bool.and_false] at word
    cases word
  · exact none symbol

theorem Begins.isSpace_eq_false {l : Lexeme} (begins : Begins l) : l.isSpace false = false := by
  have blank : ∀ text ∈ [" ", "\t", "\r", "\x0c"],
      isWordText text = false ∧ text ∉ ["(", "[", "-", "\""] := by
    decide
  simp only [Lexeme.isSpace, begins.source, Bool.not_false, Bool.true_and, Bool.false_and, Bool.or_false]
  by_contra space
  rw [Bool.not_eq_false, List.contains_iff_mem] at space
  obtain ⟨other, none⟩ := blank l.text space
  rcases begins.kind with word | symbol
  · rw [Lexeme.isWord, other, Bool.and_false] at word
    cases word
  · exact none symbol

theorem begins_symbol {text : String} (member : text ∈ ["(", "[", "-", "\""]) :
    Begins (.source text) :=
  ⟨rfl, Or.inr member⟩

theorem begins_letter {c : Char} (word : Text.isWordChar c) :
    Begins (.source (String.singleton c)) :=
  ⟨rfl, Or.inl (isWord_singleton word)⟩

def Opens (shape : Rest) : Prop :=
  ∃ l rest, shape = l :: rest ∧ Begins l

theorem Opens.append {shape : Rest} (opens : Opens shape) (s : Rest) : Opens (shape ++ s) := by
  obtain ⟨l, rest, rfl, begins⟩ := opens
  exact ⟨l, rest ++ s, rfl, begins⟩

theorem Opens.skipSpace {shape : Rest} (opens : Opens shape) : skipSpace shape = shape := by
  obtain ⟨l, rest, rfl, begins⟩ := opens
  exact skipSpace_cons begins.isSpace_eq_false rest

theorem Opens.isAt_eq_false {shape : Rest} (opens : Opens shape) {text : String}
    (other : isWordText text = false) (none : text ∉ ["(", "[", "-", "\""]) :
    Rest.isAt text shape = false := by
  obtain ⟨l, rest, rfl, begins⟩ := opens
  exact begins.isAt_eq_false other none rest

theorem opens_letters {text : List Char} (some : text ≠ []) (word : ∀ c ∈ text, Text.isWordChar c) :
    Opens (letters text) := by
  obtain ⟨c, rest, rfl⟩ := List.exists_cons_of_ne_nil some
  exact ⟨_, _, rfl, begins_letter (word c List.mem_cons_self)⟩

theorem numberText_head {text : List Char} (plain : Decimal.NumberText text) :
    ∃ c rest, text = c :: rest ∧ c.isDigit := by
  cases plain with
  | whole some all =>
    obtain ⟨c, rest, rfl⟩ := List.exists_cons_of_ne_nil some
    exact ⟨c, rest, rfl, all c List.mem_cons_self⟩
  | @fraction before behind some all more allMore =>
    obtain ⟨c, rest, rfl⟩ := List.exists_cons_of_ne_nil some
    exact ⟨c, rest ++ '.' :: behind, rfl, all c List.mem_cons_self⟩

theorem Phrase.opens {p : Precedence} {x : Expr} {shape : Rest} (phrase : Phrase p x shape) :
    Opens shape := by
  induction phrase with
  | number plain read =>
    obtain ⟨c, rest, rfl, digit⟩ := numberText_head plain
    exact ⟨_, _, rfl, begins_letter (isWordChar_of_isDigit digit)⟩
  | bool b => cases b <;> exact opens_letters (by decide) (by decide)
  | none => exact opens_letters (by decide) (by decide)
  | string spelled => exact ⟨_, _, rfl, begins_symbol (by decide)⟩
  | var valid => exact opens_letters valid.ne_nil valid.wordChars
  | group phrase ih => exact ⟨_, _, rfl, begins_symbol (by decide)⟩
  | between known leftBinds rightBinds left right ihLeft ihRight => exact ihLeft.append _
  | not binds inner ih => exact (opens_letters (by decide) (by decide)).append _
  | negate binds inner ih => exact ⟨_, _, rfl, begins_symbol (by decide)⟩
  | call binds callee ordinary each ihCallee ihArgs => exact ihCallee.append _
  | hostCall parsed spelled each ih => exact (opens_letters (by decide) (by decide)).append _
  | array each ih => exact ⟨_, _, rfl, begins_symbol (by decide)⟩
  | index binds left inner ihLeft ihInner => exact ihLeft.append _

section Applies

variable (ctx : Context) (rest : Rest)

@[simp] theorem numberRule_applies : numberRule.applies ctx rest = rest.isDigitStart := rfl

@[simp] theorem stringRule_applies : stringRule.applies ctx rest = rest.isAt "\"" := rfl

@[simp] theorem constantRule_applies : constantRule.applies ctx rest = rest.isAnyKeyword ["true", "false", "none"] := rfl

@[simp] theorem externRule_applies : externRule.applies ctx rest = rest.isKeyword "extern" := rfl

@[simp] theorem notRule_applies : notRule.applies ctx rest = rest.isKeyword "not" := rfl

@[simp] theorem negateRule_applies : negateRule.applies ctx rest = rest.isAt "-" := rfl

@[simp] theorem groupRule_applies : groupRule.applies ctx rest = rest.isAt "(" := rfl

@[simp] theorem arrayRule_applies : arrayRule.applies ctx rest = rest.isAt "[" := rfl

@[simp] theorem variableRule_applies : variableRule.applies ctx rest = (rest.isNameStart && !reserved.contains rest.word) := rfl

@[simp] theorem pipeRule_applies : pipeRule.applies ctx rest = rest.isAt "|>" := rfl

@[simp] theorem rangeRule_applies : rangeRule.applies ctx rest = rest.isAt ".." := rfl

@[simp] theorem orRule_applies : orRule.applies ctx rest = rest.isKeyword "or" := rfl

@[simp] theorem andRule_applies : andRule.applies ctx rest = rest.isKeyword "and" := rfl

@[simp] theorem compareRule_applies : compareRule.applies ctx rest = rest.isAtAny comparisons := rfl

@[simp] theorem callRule_applies : callRule.applies ctx rest = rest.isAt "(" := rfl

@[simp] theorem indexRule_applies : indexRule.applies ctx rest = rest.isAt "[" := rfl

@[simp] theorem arithmeticRule_applies (symbols : List String) (level right : Precedence) :
    (arithmeticRule symbols level right).applies ctx rest = rest.isAtAny symbols := rfl

end Applies

end ScriptKernel.Lumen
