import Mathlib
import ScriptKernel.Proofs.Lumen.Cursor
import ScriptKernel.Proofs.Parse.Phrases

/-!
Reading expressions. Whatever is written as a phrase is read as its
expression, at every level that the phrase binds at, provided that what
follows does not bind tighter. The proof is by induction on the phrase; the
left operand is extended by the loop that reads it, the other parts are read
by nested parsers.
-/

namespace ScriptKernel.Lumen

open Written

open ScriptKernel.Parser (Reads)

variable {ctx : Context}

theorem Plain.placeless (plain : Plain ctx) : grammar.Placeless ctx where
  skipSpace rest := by rw [plain.skipSpace]; exact skipSpace_bare rest
  skipTrivia rest := by
    rw [plain.skipTrivia]
    exact Rest.dropWhile_bare _ (fun _ => rfl) rest
  operands := by
    simp [grammar]
  operators := by
    simp [grammar]
  statements := by
    have followed (keyword next : String) (rest : Rest) :
        followedBy keyword next ctx rest.bare = followedBy keyword next ctx rest := by
      simp only [followedBy, Rest.isKeyword_bare, Rest.afterWord_bare, plain.skipSpace,
        skipSpace_bare, Rest.isAt_bare]
    have peeked (rest : Rest) : (ctx.peek rest.bare).synthetic = (ctx.peek rest).synthetic := by
      cases rest <;> rfl
    simp [grammar, memoizationRule, letRule, ifRule, whileRule, forRule, wordRule, returnRule, fnRule,
      outputRule, pushRule, assignRule, followed, peeked]

theorem operand_word {c : Char} (text : List Char) (letter : c.isDigit = false)
    (word : Text.isWordChar c) (s : Rest) :
    Rest.isDigitStart (letters (c :: text) ++ s) = false ∧
      ∀ symbol ∈ symbols, Rest.isAt symbol (letters (c :: text) ++ s) = false := by
  constructor
  · change Rest.isDigitStart (.source (String.singleton c) :: _) = false
    simp [isDigitStart_source, letter]
  · intro symbol member
    change Rest.isAt symbol (.source (String.singleton c) :: _) = false
    rw [isAt_source, beq_eq_false_iff_ne]
    rintro rfl
    have plain := isWord_singleton word
    rw [isWord_symbol member] at plain
    cases plain

theorem find_number {text : List Char} (plain : Decimal.NumberText text) (s : Rest) :
    grammar.operands.find? (·.applies ctx (letters text ++ s)) = some numberRule := by
  obtain ⟨c, rest, rfl, digit⟩ := numberText_head plain
  have start : Rest.isDigitStart (letters (c :: rest) ++ s) = true := by
    change Rest.isDigitStart (.source (String.singleton c) :: _) = true
    simp [isDigitStart_source, digit]
  exact List.find?_cons_of_pos start

theorem find_symbol (s : Rest) :
    grammar.operands.find? (·.applies ctx (.source "\"" :: s)) = some stringRule ∧
    grammar.operands.find? (·.applies ctx (.source "-" :: s)) = some negateRule ∧
    grammar.operands.find? (·.applies ctx (.source "(" :: s)) = some groupRule ∧
    grammar.operands.find? (·.applies ctx (.source "[" :: s)) = some arrayRule := by
  have noWord (text : String) (member : text ∈ symbols) : Rest.word (.source text :: s) = "" :=
    word_symbol member s
  simp [grammar, isDigitStart_source, Rest.isAnyKeyword, Rest.isKeyword, noWord "-" (by decide),
    noWord "(" (by decide), noWord "[" (by decide)]

theorem find_word {c : Char} {text : List Char} (letter : c.isDigit = false)
    (word : ∀ d ∈ c :: text, Text.isWordChar d) {s : Rest} (clear : Clear s) :
    grammar.operands.find? (·.applies ctx (letters (c :: text) ++ s)) =
      if String.ofList (c :: text) ∈ ["true", "false", "none"] then some constantRule
      else if String.ofList (c :: text) = "extern" then some externRule
      else if String.ofList (c :: text) = "not" then some notRule
      else if Rest.isNameStart (letters (c :: text) ++ s) ∧ String.ofList (c :: text) ∉ reserved then
        some variableRule
      else none := by
  obtain ⟨noDigit, noSymbol⟩ := operand_word text letter (word c List.mem_cons_self) s
  have seen := word_letters word clear
  simp only [grammar, List.find?_cons, numberRule_applies, stringRule_applies, constantRule_applies,
    externRule_applies, notRule_applies, negateRule_applies, groupRule_applies, arrayRule_applies,
    variableRule_applies, noDigit, noSymbol "\"" (by decide), noSymbol "-" (by decide),
    noSymbol "(" (by decide), noSymbol "[" (by decide), Rest.isAnyKeyword, Rest.isKeyword, seen]
  grind

namespace Infix

def rule : Infix → Operator
  | pipe => pipeRule
  | range => rangeRule
  | or => orRule
  | and => andRule
  | compare _ => compareRule
  | arith .add | arith .sub => arithmeticRule ["+", "-"] termLevel (termLevel + 1)
  | arith .pow => arithmeticRule ["**"] powerLevel powerLevel
  | arith _ => arithmeticRule ["*", "/", "//", "%"] factorLevel (factorLevel + 1)

theorem precedence_rule (op : Infix) : op.rule.precedence = op.level := by
  cases op with
  | arith op => cases op <;> rfl
  | _ => rfl

end Infix

def operatorSymbols : List String :=
  ["|>", "..", "+", "-", "*", "/", "//", "%", "**", "(", "["] ++ comparisons

theorem find_no_operator {s : Rest} (noSymbol : ∀ text ∈ operatorSymbols, Rest.isAt text s = false)
    (noWord : s.word ≠ "or" ∧ s.word ≠ "and") :
    grammar.operators.find? (·.applies ctx s) = none := by
  simp only [operatorSymbols, comparisons, List.mem_append, List.mem_cons, List.not_mem_nil, or_false] at noSymbol
  simp [grammar, Rest.isAtAny, comparisons, Rest.isKeyword, noSymbol, noWord]

theorem find_symbol_operator {text : String} (symbol : text ∈ symbols) (s : Rest) :
    grammar.operators.find? (·.applies ctx (.source text :: s)) =
      [pipeRule, rangeRule, compareRule, Infix.rule (.arith .add), Infix.rule (.arith .mul),
        Infix.rule (.arith .pow), callRule, indexRule].find? (·.applies ctx (.source text :: s)) := by
  have noWord := word_symbol symbol s
  have noOr : orRule.applies ctx (.source text :: s) = false := by simp [Rest.isKeyword, noWord]
  have noAnd : andRule.applies ctx (.source text :: s) = false := by simp [Rest.isKeyword, noWord]
  simp only [grammar, Infix.rule, List.find?_cons, noOr, noAnd]

theorem find_between {op : Infix} (known : op.Known) (s : Rest) :
    grammar.operators.find? (·.applies ctx (op.lexemes ++ .source " " :: s)) = some op.rule := by
  have blank : Clear (.source " " :: s) := clear_symbol (by decide) (by decide) s
  have word {c : Char} {text : List Char} (letter : c.isDigit = false)
      (all : ∀ d ∈ c :: text, Text.isWordChar d) :
      Rest.word (letters (c :: text) ++ .source " " :: s) = String.ofList (c :: text) ∧
        ∀ symbol ∈ symbols, Rest.isAt symbol (letters (c :: text) ++ .source " " :: s) = false :=
    ⟨word_letters all blank, (operand_word text letter (all c List.mem_cons_self) _).2⟩
  cases op with
  | or =>
    obtain ⟨seen, other⟩ := @word 'o' ['r'] (by decide) (by decide)
    change grammar.operators.find? (·.applies ctx (letters ['o', 'r'] ++ .source " " :: s)) = some orRule
    simp only [grammar, List.find?_cons, pipeRule_applies, rangeRule_applies, orRule_applies,
      Rest.isKeyword, seen, other "|>" (by decide), other ".." (by decide)]
    rfl
  | and =>
    obtain ⟨seen, other⟩ := @word 'a' ['n', 'd'] (by decide) (by decide)
    change grammar.operators.find? (·.applies ctx (letters ['a', 'n', 'd'] ++ .source " " :: s)) =
      some andRule
    simp only [grammar, List.find?_cons, pipeRule_applies, rangeRule_applies, orRule_applies,
      andRule_applies, Rest.isKeyword, seen, other "|>" (by decide), other ".." (by decide)]
    rfl
  | pipe | range => exact (find_symbol_operator (by decide) _).trans rfl
  | compare op =>
    cases op with
    | other symbol => exact known.elim
    | _ => exact (find_symbol_operator (by decide) _).trans rfl
  | arith op =>
    cases op with
    | other symbol => exact known.elim
    | _ => exact (find_symbol_operator (by decide) _).trans rfl

/-- An operator that binds less tightly than this ends a phrase of the given
level. Mostly an operator of that level would extend it; comparisons and the
operators whose last operand is read at their own level leave it there. -/
def edge (p : Precedence) : Precedence :=
  if p = comparisonLevel ∨ p = unaryLevel ∨ p = powerLevel then p else p + 1

theorem le_edge (p : Precedence) : p ≤ edge p := by
  unfold edge
  split
  · exact Int.le_refl p
  · exact Int.le_of_lt (Int.lt_succ p)

namespace Infix

theorem level_le_left (op : Infix) : op.level ≤ op.left ∧ op.level < edge op.left := by
  cases op with
  | compare op =>
    exact (by decide : comparisonLevel ≤ comparisonLevel + 1 ∧ comparisonLevel < edge (comparisonLevel + 1))
  | arith op =>
    cases op with
    | other symbol => exact (by decide : factorLevel ≤ factorLevel ∧ factorLevel < edge factorLevel)
    | _ => decide
  | _ => decide

theorem edge_le_right (op : Infix) : edge op.level ≤ op.right := by
  cases op with
  | compare op => exact (by decide : edge comparisonLevel ≤ comparisonLevel + 1)
  | arith op =>
    cases op with
    | other symbol => exact (by decide : edge factorLevel ≤ factorLevel + 1)
    | _ => decide
  | _ => decide

theorem level_lt_edge (op : Infix) {p : Precedence} (binds : op.left ≤ p) : op.level < edge p := by
  rcases Int.lt_or_eq_of_le binds with lower | rfl
  · exact Int.lt_of_le_of_lt op.level_le_left.1 (Int.lt_of_lt_of_le lower (le_edge p))
  · exact op.level_le_left.2

end Infix

theorem length_skipSpace_le (s : Rest) : (skipSpace s).length ≤ s.length :=
  (List.dropWhile_suffix _).length_le

def manner : Grammar.Manner := ⟨skipSpace, edge, Clear⟩

theorem Plain.suits (plain : Plain ctx) : manner.Suits grammar ctx where
  placeless := plain.placeless
  skipSpace := plain.skipSpace
  skip_idem := skipSpace_idem
  length_skip_le := length_skipSpace_le
  le_edge := le_edge
  unbounded := plain.unbounded

/-- The lexemes are read as the expression wherever they stand, and reading
goes on behind them. -/
abbrev Readable (ctx : Context) (p : Precedence) (x : Expr) (shape : Rest) : Prop :=
  Grammar.Readable grammar ctx manner p x shape

theorem readable_operand (plain : Plain ctx) {rule : Operand} {x : Expr} {shape : Rest}
    (opens : Opens shape)
    (found : ∀ s, Clear s → grammar.operands.find? (·.applies ctx (shape ++ s)) = some rule)
    (parsed : ∀ fuel depth s, shape.length ≤ fuel → Clear s →
      Reads (rule.parse (grammar.nestedAt fuel depth)) ctx (shape ++ s) x s) :
    Readable ctx callLevel x shape := by
  refine Grammar.readable_operand plain.suits (fun s => (opens.append s).skipSpace) found ?_
  intro fuel depth s fueled clear stops
  exact ⟨s, rfl, length_skipSpace_le s, parsed fuel depth s fueled clear⟩

theorem readable_before (plain : Plain ctx) {rule : Operand} {p : Precedence} {x : Expr} {shape : Rest}
    (opens : Opens shape)
    (found : ∀ s, grammar.operands.find? (·.applies ctx (shape ++ s)) = some rule)
    (parsed : ∀ fuel depth s, shape.length ≤ fuel → Clear s → grammar.Stops ctx (edge p) s →
      Reads (rule.parse (grammar.nestedAt fuel depth)) ctx (shape ++ s) x (skipSpace s)) :
    Readable ctx p x shape := by
  refine Grammar.readable_operand plain.suits (fun s => (opens.append s).skipSpace) (fun s _ => found s) ?_
  intro fuel depth s fueled clear stops
  exact ⟨skipSpace s, skipSpace_idem s, Nat.le_refl _, parsed fuel depth s fueled clear stops⟩

theorem Readable.nested (plain : Plain ctx) {p : Precedence} {x : Expr} {shape : Rest}
    (readable : Readable ctx p x shape) {fuel depth : Nat} {least : Precedence} {u s : Rest}
    (fueled : shape.length < fuel) (binds : least ≤ p) (clear : Clear s)
    (stops : grammar.Stops ctx least s) (written : skipSpace u = shape ++ s) :
    Reads ((grammar.nestedAt fuel depth).expr least) ctx u x (skipSpace s) :=
  Grammar.Readable.nested plain.suits readable fueled binds clear stops written

theorem span_number {text : List Char} (plain : Decimal.NumberText text) {s : Rest} (clear : Clear s) :
    Parser.spanNumber true (letters text ++ s) = (letters text, s) := by
  cases plain with
  | whole some all =>
    exact Parser.spanNumber_whole (isDigits_letters all) clear.not_atDigit clear.noPoint
  | @fraction before behind some all more allMore =>
    have parts : letters (before ++ '.' :: behind) = letters before ++ .source "." :: letters behind := by
      simp only [letters, List.map_append, List.map_cons]
      rfl
    have behindSome : letters behind ≠ [] := by simpa [letters] using more
    rw [parts, List.append_assoc, List.cons_append]
    exact Parser.spanNumber_fraction (isDigits_letters all) behindSome (isDigits_letters allMore)
      clear.not_atDigit

theorem readable_number (plain : Plain ctx) {text : List Char} {x : Float}
    (digits : Decimal.NumberText text) (read : Decimal.read? (String.ofList text) = some x) :
    Readable ctx callLevel (.literal (.number x)) (letters text) := by
  have opens := (Phrase.number digits read).opens
  refine readable_operand plain opens (fun s _ => find_number digits s) ?_
  intro fuel depth s fueled clear
  refine (Parser.reads_number (span_number digits clear)).bind ?_
  rw [text_letters, read]
  exact Reads.pure _ s

theorem readable_string (plain : Plain ctx) {contents : Rest} {text : String}
    (spelled : Parser.Contents "\"" contents text) :
    Readable ctx callLevel (.literal (.string text)) (quotedLexemes contents) := by
  refine readable_operand plain (Phrase.string spelled).opens (fun s _ => (find_symbol _).1) ?_
  intro fuel depth s fueled clear
  have whole : quotedLexemes contents ++ s = .source "\"" :: (contents ++ .source "\"" :: s) := by
    simp [quotedLexemes]
  rw [whole]
  exact (Parser.reads_string (by decide) spelled s).bind (Reads.pure _ s)

def constantOf (word : String) : Value :=
  if word = "true" then .bool true else if word = "false" then .bool false else .none

theorem readable_constant (plain : Plain ctx) {c : Char} {text : List Char}
    (letter : c.isDigit = false) (word : ∀ d ∈ c :: text, Text.isWordChar d)
    (constant : String.ofList (c :: text) ∈ ["true", "false", "none"]) :
    Readable ctx callLevel (.literal (constantOf (String.ofList (c :: text)))) (letters (c :: text)) := by
  have opens : Opens (letters (c :: text)) := opens_letters (List.cons_ne_nil c text) word
  have found (s : Rest) (clear : Clear s) :
      grammar.operands.find? (·.applies ctx (letters (c :: text) ++ s)) = some constantRule := by
    rw [find_word letter word clear, if_pos constant]
  refine readable_operand plain opens found ?_
  intro fuel depth s fueled clear
  refine (reads_letters word clear).bind ?_
  unfold constantOf
  split
  · exact Reads.pure _ s
  · split
    · exact Reads.pure _ s
    · exact Reads.pure _ s

theorem reads_name {name : String} (valid : IsName name) {s : Rest} (clear : Clear s) :
    Reads Lumen.name ctx (letters name.toList ++ s) name s :=
  valid.reads clear

theorem readable_var (plain : Plain ctx) {name : String} (valid : IsName name) :
    Readable ctx callLevel (.var name) (letters name.toList) := by
  obtain ⟨c, text, chars, start, letter⟩ := valid.parts
  have word := valid.wordChars
  have found (s : Rest) (clear : Clear s) :
      grammar.operands.find? (·.applies ctx (letters name.toList ++ s)) = some variableRule := by
    have free : String.ofList (c :: text) ∉ reserved := by
      rw [← chars, String.ofList_toList]
      exact valid.free
    have keywords : ∀ keyword ∈ ["true", "false", "none", "extern", "not"], keyword ∈ reserved := by decide
    have other : String.ofList (c :: text) ∉ ["true", "false", "none", "extern", "not"] :=
      fun member => free (keywords _ member)
    simp only [List.mem_cons, List.not_mem_nil, or_false, not_or] at other
    have opening := isNameStart_letters text start s
    rw [chars] at word ⊢
    rw [find_word letter word clear]
    generalize String.ofList (c :: text) = word at free other
    simp [other, opening, free]
  refine readable_operand plain (opens_letters valid.ne_nil word) found ?_
  intro fuel depth s fueled clear
  exact (reads_name valid clear).bind (Reads.pure _ s)

structure Ends (ctx : Context) (s : Rest) : Prop where
  clear : Clear s
  stops : ∀ least, grammar.Stops ctx least s
  solid : skipSpace s = s

theorem ends_of_find (plain : Plain ctx) {s : Rest} (clear : Clear s) (solid : skipSpace s = s)
    (none : grammar.operators.find? (·.applies ctx s) = none) : Ends ctx s := by
  refine ⟨clear, ?_, solid⟩
  intro least rule found
  rw [plain.skipSpace, solid, none] at found
  cases found

def closers : List String := [")", "]", ",", "=", ";"]

theorem ends_closer (plain : Plain ctx) {text : String} (closer : text ∈ closers) {s : Rest}
    (here : Rest.isAt text s) : Ends ctx s := by
  cases s with
  | nil => cases here
  | cons l t =>
    simp only [Rest.isAt, Bool.and_eq_true, Bool.not_eq_true', beq_iff_eq] at here
    obtain ⟨real, rfl⟩ := here
    have symbol : l.text ∈ symbols ∧ l.text ≠ "." ∧ l.text ∉ operatorSymbols ∧
        [" ", "\t", "\r", "\x0c"].contains l.text = false := by
      have all : ∀ text ∈ closers, text ∈ symbols ∧ text ≠ "." ∧ text ∉ operatorSymbols ∧
          [" ", "\t", "\r", "\x0c"].contains text = false := by decide
      exact all _ closer
    have noWord : l.isWord = false := by
      rw [Lexeme.isWord, isWordText_symbol _ symbol.1, Bool.and_false]
    have clear : Clear (l :: t) := by
      constructor
      · rintro _ ⟨⟩
        exact noWord
      · simp [Rest.isAt, symbol.2.1]
    have solid : skipSpace (l :: t) = l :: t := by
      refine skipSpace_cons ?_ t
      rw [Lexeme.isSpace, symbol.2.2.2]
      simp
    refine ends_of_find plain clear solid (find_no_operator ?_ ?_)
    · intro text member
      have other : l.text ≠ text := by
        rintro rfl
        exact symbol.2.2.1 member
      simp [Rest.isAt, other]
    · rw [word_of_not_isWord noWord]
      decide

theorem ends_sign (plain : Plain ctx) (text : String) (s : Rest) : Ends ctx (.sign text :: s) := by
  refine ends_of_find plain (clear_sign text s) (skipSpace_sign text s) (find_no_operator ?_ ?_)
  · intro other _
    exact isAt_sign text other s
  · rw [word_sign]
    decide

theorem Phrase.lowest_le {p : Precedence} {x : Expr} {shape : Rest} (phrase : Phrase p x shape) :
    lowest ≤ p := by
  cases phrase with
  | @between op =>
    cases op with
    | compare op => exact (by decide : lowest ≤ comparisonLevel)
    | arith op =>
      cases op with
      | other symbol => exact (by decide : lowest ≤ factorLevel)
      | _ => decide
    | _ => decide
  | _ => decide

theorem Readable.whole (plain : Plain ctx) {p : Precedence} {x : Expr} {shape : Rest}
    (readable : Readable ctx p x shape) (phrase : Phrase p x shape) {fuel depth : Nat} {u s : Rest}
    (fueled : shape.length < fuel) (ends : Ends ctx s) (written : skipSpace u = shape ++ s) :
    Reads ((grammar.nestedAt fuel depth).expr lowest) ctx u x s := by
  have read : Reads ((grammar.nestedAt fuel depth).expr lowest) ctx u x (skipSpace s) :=
    readable.nested plain fueled phrase.lowest_le ends.clear (ends.stops lowest) written
  rwa [ends.solid] at read

theorem reads_skipSpace (plain : Plain ctx) (s : Rest) :
    Reads Parser.skipSpace ctx s () (skipSpace s) := by
  have read : Reads Parser.skipSpace ctx s () (ctx.skipSpace s) :=
    Reads.skipSpace plain.placeless.toPlaceless s
  rwa [plain.skipSpace] at read

theorem Ends.reads_skipSpace (plain : Plain ctx) {s : Rest} (ends : Ends ctx s) :
    Reads Parser.skipSpace ctx s () s := by
  have read := Lumen.reads_skipSpace plain s
  rwa [ends.solid] at read

theorem readable_group (plain : Plain ctx) {p : Precedence} {x : Expr} {inner : Rest}
    (phrase : Phrase p x inner) (readable : Readable ctx p x inner) :
    Readable ctx callLevel x (enclosed inner) := by
  have found (s : Rest) (_ : Clear s) :
      grammar.operands.find? (·.applies ctx (enclosed inner ++ s)) = some groupRule :=
    (find_symbol _).2.2.1
  refine readable_operand plain (Phrase.group phrase).opens found ?_
  intro fuel depth s fueled clear
  have parts : enclosed inner ++ s = .source "(" :: (inner ++ .source ")" :: s) := by simp [enclosed]
  have shorter : inner.length < fuel := by simp [enclosed] at fueled; omega
  have ends : Ends ctx (.source ")" :: s) := ends_closer plain (by decide : ")" ∈ closers) rfl
  rw [parts]
  refine Reads.advance fun _ _ => ?_
  refine (readable.whole plain phrase shorter ends (phrase.opens.append _).skipSpace).bind ?_
  refine (ends.reads_skipSpace plain).bind ?_
  exact Reads.expect (isAtAny_singleton ")" s) fun _ _ => Reads.pure x s

theorem readable_not (plain : Plain ctx) {p : Precedence} {x : Expr} {inner : Rest}
    (binds : comparisonLevel ≤ p) (phrase : Phrase p x inner) (readable : Readable ctx p x inner) :
    Readable ctx comparisonLevel (.not x) (letters "not".toList ++ .source " " :: inner) := by
  have blank (s : Rest) : Clear (.source " " :: (inner ++ s)) := clear_symbol (by decide) (by decide) _
  have found (s : Rest) : grammar.operands.find?
      (·.applies ctx ((letters "not".toList ++ .source " " :: inner) ++ s)) = some notRule := by
    rw [List.append_assoc, List.cons_append]
    exact (@find_word ctx 'n' ['o', 't'] (by decide) (by decide) _ (blank s)).trans rfl
  refine readable_before plain (Phrase.not binds phrase).opens found ?_
  intro fuel depth s fueled clear stops
  have shorter : inner.length < fuel := by simp at fueled; omega
  rw [List.append_assoc, List.cons_append]
  refine (reads_letters (by decide) (blank s)).bind ?_
  have written : skipSpace (.source " " :: (inner ++ s)) = inner ++ s :=
    (phrase.opens.append s).skipSpace
  exact (readable.nested plain shorter binds clear stops written).bind (Reads.pure _ _)

theorem readable_negate (plain : Plain ctx) {p : Precedence} {x : Expr} {inner : Rest}
    (binds : unaryLevel ≤ p) (phrase : Phrase p x inner) (readable : Readable ctx p x inner) :
    Readable ctx unaryLevel (.negate x) (.source "-" :: inner) := by
  have found (s : Rest) :
      grammar.operands.find? (·.applies ctx ((.source "-" :: inner) ++ s)) = some negateRule :=
    (find_symbol _).2.1
  refine readable_before plain (Phrase.negate binds phrase).opens found ?_
  intro fuel depth s fueled clear stops
  have shorter : inner.length < fuel := fueled
  refine Reads.advance fun _ _ => ?_
  have written : skipSpace (inner ++ s) = inner ++ s := (phrase.opens.append s).skipSpace
  exact (readable.nested plain shorter binds clear stops written).bind (Reads.pure _ _)

end ScriptKernel.Lumen
