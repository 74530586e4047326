import ScriptKernel.Proofs.MiniRust.Phrases

/-!
What the rules of MiniRust see at the cursor: blanks and comments, words,
symbols and the beginnings of phrases.
-/

namespace ScriptKernel.MiniRust

open Written

structure Plain (ctx : Context) : Prop where
  skipSpace : ctx.skipSpace = MiniRust.skipSpace
  skipTrivia : ctx.skipTrivia = MiniRust.skipTrivia
  aliases : ctx.aliases = {}
  unbounded : ctx.maxDepth ≤ 0

def Solid (semicolons : Bool) (l : Lexeme) : Prop :=
  l.isSpace true = false ∧
    (l.synthetic ∨ (l.text ≠ "//" ∧ (semicolons && l.text == ";") = false))

theorem skipFrom_solid {semicolons : Bool} {l : Lexeme} (solid : Solid semicolons l) (s : Rest) :
    skipFrom semicolons false (l :: s) = l :: s := by
  obtain ⟨ink, stays⟩ := solid
  cases real : l.synthetic with
  | true => simp [skipFrom, ink, real]
  | false =>
    rw [real] at stays
    simp only [Bool.false_eq_true, false_or] at stays
    simp [skipFrom, ink, real, stays]

theorem skipFrom_stops (semicolons comment : Bool) (s : Rest) :
    ∀ l ∈ (skipFrom semicolons comment s).head?, Solid semicolons l := by
  fun_induction skipFrom semicolons comment s with
  | case1 => simp
  | case2 lexeme rest marker =>
    rintro _ ⟨⟩
    exact ⟨by simp [Lexeme.isSpace, marker], Or.inl marker⟩
  | case3 lexeme rest real ih => exact ih
  | case4 lexeme rest space ih => exact ih
  | case5 lexeme rest ink marker =>
    rintro _ ⟨⟩
    exact ⟨by simpa using ink, Or.inl marker⟩
  | case6 lexeme rest ink real comment ih => exact ih
  | case7 lexeme rest ink real code semicolon ih => exact ih
  | case8 lexeme rest ink real code other =>
    rintro _ ⟨⟩
    exact ⟨by simpa using ink, Or.inr ⟨code, by simpa using other⟩⟩

theorem skipFrom_idem (semicolons comment : Bool) (s : Rest) :
    skipFrom semicolons false (skipFrom semicolons comment s) = skipFrom semicolons comment s := by
  have stops := skipFrom_stops semicolons comment s
  cases skipped : skipFrom semicolons comment s with
  | nil => rfl
  | cons l t =>
    rw [skipped] at stops
    exact skipFrom_solid (stops l rfl) t

theorem length_skipFrom_le (semicolons comment : Bool) (s : Rest) :
    (skipFrom semicolons comment s).length ≤ s.length := by
  fun_induction skipFrom semicolons comment s with
  | case1 => simp
  | case2 => exact Nat.le_refl _
  | case3 lexeme rest real ih => exact Nat.le_succ_of_le ih
  | case4 lexeme rest space ih => exact Nat.le_succ_of_le ih
  | case5 => exact Nat.le_refl _
  | case6 lexeme rest ink real comment ih => exact Nat.le_succ_of_le ih
  | case7 lexeme rest ink real code semicolon ih => exact Nat.le_succ_of_le ih
  | case8 => exact Nat.le_refl _

theorem skipFrom_bare (semicolons comment : Bool) (rest : Rest) :
    skipFrom semicolons comment rest.bare = (skipFrom semicolons comment rest).bare := by
  induction rest generalizing comment with
  | nil => cases comment <;> rfl
  | cons l rest ih =>
    cases comment with
    | true =>
      simp only [Rest.bare_cons, skipFrom, Lexeme.bare_synthetic, Lexeme.bare_text, ih]
      split <;> simp
    | false =>
      simp only [Rest.bare_cons, skipFrom, Lexeme.isSpace_bare, Lexeme.bare_synthetic, Lexeme.bare_text, ih]
      repeat (split; · simp)
      simp

@[simp] theorem skipSpace_blank (s : Rest) : skipSpace (.source " " :: s) = skipSpace s := rfl

@[simp] theorem skipSpace_newline (s : Rest) : skipSpace (.source "\n" :: s) = skipSpace s := rfl

@[simp] theorem skipTrivia_blank (s : Rest) : skipTrivia (.source " " :: s) = skipTrivia s := rfl

@[simp] theorem skipTrivia_newline (s : Rest) : skipTrivia (.source "\n" :: s) = skipTrivia s := rfl

@[simp] theorem skipTrivia_semicolon (s : Rest) : skipTrivia (.source ";" :: s) = skipTrivia s := rfl

def symbols : List String :=
  ["(", ")", "\x7b", "\x7d", ",", ";", ":", "=", "-", "!", "\"", " ", "\n", "||", "&&", "==", "!=", "<=",
   ">=", "<", ">", "+", "*", "/", "%"]

theorem isWordText_symbol : ∀ text ∈ symbols, isWordText text = false := by
  decide

def inks : List String := symbols.filter fun text => text ≠ " " ∧ text ≠ "\n"

theorem skipSpace_symbol {text : String} (symbol : text ∈ inks) (s : Rest) :
    skipSpace (.source text :: s) = .source text :: s := by
  have solid : ∀ text ∈ inks, (Lexeme.source text).isSpace true = false ∧ text ≠ "//" := by decide
  obtain ⟨ink, code⟩ := solid text symbol
  exact skipFrom_solid ⟨ink, Or.inr ⟨code, rfl⟩⟩ s

theorem word_symbol {text : String} (symbol : text ∈ symbols) (s : Rest) :
    Rest.word (.source text :: s) = "" :=
  word_of_not_isWord (isWord_source (isWordText_symbol text symbol)) s

theorem clear_symbol {text : String} (symbol : text ∈ symbols) (s : Rest) : Clear (.source text :: s) := by
  have notPoint : ∀ text ∈ symbols, text ≠ "." := by decide
  exact clear_source (isWordText_symbol text symbol) (notPoint text symbol) s

/-- Nothing follows that would make a word longer, or a macro of it. -/
structure Apart (s : Rest) : Prop extends Clear s where
  noMark : Rest.isAt "!" s = false

theorem apart_symbol {text : String} (symbol : text ∈ symbols) (noMark : text ≠ "!") (s : Rest) :
    Apart (.source text :: s) :=
  ⟨clear_symbol symbol s, by simpa using noMark⟩

def beginnings : List String := ["(", "-", "!", "\"", "\x7b"]

structure Begins (l : Lexeme) : Prop where
  source : l.synthetic = false
  kind : l.isWord ∨ l.text ∈ beginnings

theorem Begins.isAt_eq_false {l : Lexeme} (begins : Begins l) {text : String}
    (other : isWordText text = false) (none : text ∉ beginnings) (s : Rest) :
    Rest.isAt text (l :: s) = false := by
  simp only [Rest.isAt, begins.source, Bool.not_false, Bool.true_and, beq_eq_false_iff_ne]
  rintro rfl
  rcases begins.kind with word | symbol
  · rw [Lexeme.isWord, other, Bool.and_false] at word
    cases word
  · exact none symbol

theorem Begins.solid {l : Lexeme} (begins : Begins l) (semicolons : Bool) : Solid semicolons l := by
  have blank : ∀ text ∈ [" ", "\t", "\r", "\x0c", "\n", "//", ";"],
      isWordText text = false ∧ text ∉ beginnings := by
    decide
  have differs : ∀ text ∈ [" ", "\t", "\r", "\x0c", "\n", "//", ";"], l.text ≠ text := by
    intro text member same
    obtain ⟨other, none⟩ := blank text member
    have absent := begins.isAt_eq_false other none []
    simp [Rest.isAt, begins.source, same] at absent
  simp only [List.mem_cons, List.not_mem_nil, or_false, forall_eq_or_imp, forall_eq] at differs
  obtain ⟨space, tab, return_, feed, newline, comment, semicolon⟩ := differs
  refine ⟨?_, Or.inr ⟨comment, by simp [semicolon]⟩⟩
  simp [Lexeme.isSpace, begins.source, space, tab, return_, feed, newline]

theorem begins_symbol {text : String} (member : text ∈ beginnings) : Begins (.source text) :=
  ⟨rfl, Or.inr member⟩

theorem begins_letter {c : Char} (word : Text.isWordChar c) : Begins (.source (String.singleton c)) :=
  ⟨rfl, Or.inl (isWord_singleton word)⟩

def Opens (shape : Rest) : Prop :=
  ∃ l rest, shape = l :: rest ∧ Begins l

namespace Opens

variable {shape : Rest}

theorem append (opens : Opens shape) (s : Rest) : Opens (shape ++ s) := by
  obtain ⟨l, rest, rfl, begins⟩ := opens
  exact ⟨l, rest ++ s, rfl, begins⟩

theorem skipSpace (opens : Opens shape) : skipSpace shape = shape := by
  obtain ⟨l, rest, rfl, begins⟩ := opens
  exact skipFrom_solid (begins.solid false) rest

theorem skipTrivia (opens : Opens shape) : skipTrivia shape = shape := by
  obtain ⟨l, rest, rfl, begins⟩ := opens
  exact skipFrom_solid (begins.solid true) rest

theorem isAt_eq_false (opens : Opens shape) {text : String} (other : isWordText text = false)
    (none : text ∉ beginnings) : Rest.isAt text shape = false := by
  obtain ⟨l, rest, rfl, begins⟩ := opens
  exact begins.isAt_eq_false other none rest

theorem atEnd (opens : Opens shape) (ctx : Context) : ctx.atEnd shape = false := by
  obtain ⟨l, rest, rfl, begins⟩ := opens
  simp [Context.atEnd, begins.source]

theorem synthetic_peek (opens : Opens shape) (ctx : Context) : (ctx.peek shape).synthetic = false := by
  obtain ⟨l, rest, rfl, begins⟩ := opens
  exact begins.source

end Opens

theorem opens_symbol {text : String} (member : text ∈ beginnings) (s : Rest) : Opens (.source text :: s) :=
  ⟨_, s, rfl, begins_symbol member⟩

theorem opens_letters {text : List Char} (nonempty : text ≠ []) (word : ∀ c ∈ text, Text.isWordChar c) :
    Opens (letters text) := by
  obtain ⟨c, rest, rfl⟩ := List.exists_cons_of_ne_nil nonempty
  exact ⟨_, _, rfl, begins_letter (word c List.mem_cons_self)⟩

theorem Phrase.begins {p : Precedence} {x : Expr} {shape : Rest} (phrase : Phrase p x shape) :
    ∃ l rest, shape = l :: rest ∧ Begins l ∧ l.text ≠ "\x7b" := by
  have letter {text : List Char} (nonempty : text ≠ []) (word : ∀ c ∈ text, Text.isWordChar c) (tail : Rest) :
      ∃ l rest, letters text ++ tail = l :: rest ∧ Begins l ∧ l.text ≠ "\x7b" := by
    obtain ⟨c, rest, rfl⟩ := List.exists_cons_of_ne_nil nonempty
    have brace : Text.isWordChar '\x7b' = false := by decide
    refine ⟨_, _, rfl, begins_letter (word c List.mem_cons_self), ?_⟩
    intro same
    have chars := congrArg String.toList same
    simp only [Lexeme.source_text, String.toList_singleton] at chars
    have isBrace : c = '\x7b' := by simpa using chars
    have wordlike := word c List.mem_cons_self
    rw [isBrace, brace] at wordlike
    cases wordlike
  have extend {inner tail : Rest} (first : ∃ l rest, inner = l :: rest ∧ Begins l ∧ l.text ≠ "\x7b") :
      ∃ l rest, inner ++ tail = l :: rest ∧ Begins l ∧ l.text ≠ "\x7b" := by
    obtain ⟨l, rest, rfl, begins, noBrace⟩ := first
    exact ⟨l, rest ++ tail, rfl, begins, noBrace⟩
  have whole {inner : Rest} (first : ∃ l rest, inner ++ [] = l :: rest ∧ Begins l ∧ l.text ≠ "\x7b") :
      ∃ l rest, inner = l :: rest ∧ Begins l ∧ l.text ≠ "\x7b" := by
    rwa [List.append_nil] at first
  induction phrase with
  | int unsigned =>
    obtain ⟨digits, nonempty, -⟩ := decimal_unsigned unsigned
    exact whole (letter nonempty (fun c member => isWordChar_of_isDigit (digits c member)) [])
  | flag b => cases b <;> exact whole (letter (by decide) (by decide) [])
  | str spelled => exact ⟨_, _, rfl, begins_symbol (by decide), by decide⟩
  | var valid => exact whole (letter valid.ne_nil valid.wordChars [])
  | group phrase ih => exact ⟨_, _, rfl, begins_symbol (by decide), by decide⟩
  | between known leftBinds rightBinds left right ihLeft ihRight => exact extend ihLeft
  | negate binds inner ih => exact ⟨_, _, rfl, begins_symbol (by decide), by decide⟩
  | not binds inner ih => exact ⟨_, _, rfl, begins_symbol (by decide), by decide⟩
  | call binds callee ordinary each ihCallee ih => exact extend ihCallee
  | format each ih => exact letter (by decide) (by decide) _

theorem Phrase.opens {p : Precedence} {x : Expr} {shape : Rest} (phrase : Phrase p x shape) : Opens shape := by
  obtain ⟨l, rest, written, begins, -⟩ := phrase.begins
  exact ⟨l, rest, written, begins⟩

theorem Phrase.noBrace {p : Precedence} {x : Expr} {shape : Rest} (phrase : Phrase p x shape) (s : Rest) :
    Rest.isAt "\x7b" (shape ++ s) = false := by
  obtain ⟨l, rest, rfl, begins, other⟩ := phrase.begins
  simp [Rest.isAt, other]

section Applies

variable (ctx : Context) (rest : Rest)

@[simp] theorem intRule_applies : intRule.applies ctx rest = rest.isDigitStart := rfl

@[simp] theorem strRule_applies : strRule.applies ctx rest = rest.isAt "\"" := rfl

@[simp] theorem flagRule_applies : flagRule.applies ctx rest = rest.isAnyKeyword ["true", "false"] := rfl

@[simp] theorem formatRule_applies : formatRule.applies ctx rest = isBang "format" rest := rfl

@[simp] theorem negateRule_applies : negateRule.applies ctx rest = rest.isAt "-" := rfl

@[simp] theorem notRule_applies : notRule.applies ctx rest = rest.isAt "!" := rfl

@[simp] theorem groupRule_applies : groupRule.applies ctx rest = rest.isAt "(" := rfl

@[simp] theorem variableRule_applies : variableRule.applies ctx rest = (rest.isNameStart && !reserved.contains rest.word) := rfl

@[simp] theorem orRule_applies : orRule.applies ctx rest = rest.isAt "||" := rfl

@[simp] theorem andRule_applies : andRule.applies ctx rest = rest.isAt "&&" := rfl

@[simp] theorem compareRule_applies : compareRule.applies ctx rest = rest.isAtAny ["==", "!=", "<=", ">=", "<", ">"] := rfl

@[simp] theorem arithmeticRule_applies (symbols : List String) (level : Precedence) :
    (arithmeticRule symbols level).applies ctx rest = rest.isAtAny symbols := rfl

@[simp] theorem callRule_applies : callRule.applies ctx rest = rest.isAt "(" := rfl

end Applies

end ScriptKernel.MiniRust
