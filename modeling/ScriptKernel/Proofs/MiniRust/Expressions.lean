import Mathlib
import ScriptKernel.Proofs.MiniRust.Cursor
import ScriptKernel.Proofs.Parse.Phrases

/-!
Reading expressions of MiniRust. Whatever is written as a phrase is read as its
expression, at every level that the phrase binds at, provided that what follows
does not bind tighter. The proof is by induction on the phrase.
-/

namespace ScriptKernel.MiniRust

open Written
open ScriptKernel.Parser (Reads)

variable {ctx : Context}

theorem isBang_bare (keyword : String) (rest : Rest) : isBang keyword rest.bare = isBang keyword rest := by
  simp only [isBang, Rest.isKeyword_bare, Rest.afterWord_bare, Rest.isAt_bare]

theorem Plain.placeless (plain : Plain ctx) : grammar.Placeless ctx where
  skipSpace rest := by rw [plain.skipSpace]; exact skipFrom_bare false false rest
  skipTrivia rest := by rw [plain.skipTrivia]; exact skipFrom_bare true false rest
  operands := by
    simp [grammar, isBang_bare]
  operators := by
    simp [grammar]
  statements := by
    have print (rest : Rest) : printRule.applies ctx rest.bare = printRule.applies ctx rest := by
      have skipped (rest : Rest) : MiniRust.skipSpace rest.bare = (MiniRust.skipSpace rest).bare :=
        skipFrom_bare false false rest
      simp only [printRule, Rest.isKeyword_bare, Rest.afterWord_bare, plain.skipSpace, skipped, Rest.isAt_bare]
    have peeked (rest : Rest) : (ctx.peek rest.bare).synthetic = (ctx.peek rest).synthetic := by
      cases rest <;> rfl
    simp [grammar, letRule, fnRule, ifRule, whileRule, loopRule, wordRule, returnRule, printBangRule, print,
      blockRule, assignRule, isBang_bare, peeked]

theorem find_int {text : List Char} (nonempty : text ≠ []) (digits : ∀ c ∈ text, c.isDigit) (s : Rest) :
    grammar.operands.find? (·.applies ctx (letters text ++ s)) = some intRule := by
  obtain ⟨c, rest, rfl⟩ := List.exists_cons_of_ne_nil nonempty
  have start : Rest.isDigitStart (letters (c :: rest) ++ s) = true := by
    show Rest.isDigitStart (.source (String.singleton c) :: _) = true
    simp [isDigitStart_source, digits c List.mem_cons_self]
  exact List.find?_cons_of_pos start

theorem find_symbol (s : Rest) :
    grammar.operands.find? (·.applies ctx (.source "\"" :: s)) = some strRule ∧
    grammar.operands.find? (·.applies ctx (.source "-" :: s)) = some negateRule ∧
    grammar.operands.find? (·.applies ctx (.source "!" :: s)) = some notRule ∧
    grammar.operands.find? (·.applies ctx (.source "(" :: s)) = some groupRule := by
  have noWord (text : String) (member : text ∈ symbols) : Rest.word (.source text :: s) = "" :=
    word_symbol member s
  simp [grammar, isDigitStart_source, isBang, Rest.isAnyKeyword, Rest.isKeyword, noWord "-" (by decide),
    noWord "(" (by decide), noWord "!" (by decide)]

theorem find_word {c : Char} {text : List Char} (letter : c.isDigit = false)
    (word : ∀ d ∈ c :: text, Text.isWordChar d) {s : Rest} (clear : Clear s) :
    grammar.operands.find? (·.applies ctx (letters (c :: text) ++ s)) =
      if String.ofList (c :: text) ∈ ["true", "false"] then some flagRule
      else if String.ofList (c :: text) = "format" ∧ Rest.isAt "!" s then some formatRule
      else if Rest.isNameStart (letters (c :: text) ++ s) ∧ String.ofList (c :: text) ∉ reserved then
        some variableRule
      else none := by
  have noDigit : Rest.isDigitStart (letters (c :: text) ++ s) = false := by
    show Rest.isDigitStart (.source (String.singleton c) :: _) = false
    simp [isDigitStart_source, letter]
  have noSymbol (symbol : String) (member : symbol ∈ symbols) :
      Rest.isAt symbol (letters (c :: text) ++ s) = false := by
    show Rest.isAt symbol (.source (String.singleton c) :: _) = false
    rw [isAt_source, beq_eq_false_iff_ne]
    rintro rfl
    have plain := isWord_singleton (word c List.mem_cons_self)
    rw [isWord_source (isWordText_symbol _ member)] at plain
    cases plain
  have seen := word_letters word clear
  have behind := afterWord_letters word clear
  simp only [grammar, List.find?_cons, intRule_applies, strRule_applies, flagRule_applies, formatRule_applies,
    negateRule_applies, notRule_applies, groupRule_applies, variableRule_applies, noDigit,
    noSymbol "\"" (by decide), noSymbol "-" (by decide), noSymbol "!" (by decide), noSymbol "(" (by decide),
    isBang, Rest.isAnyKeyword, Rest.isKeyword, seen, behind]
  grind

def operatorSymbols : List String :=
  ["||", "&&", "==", "!=", "<=", ">=", "<", ">", "+", "-", "*", "/", "%", "("]

theorem find_no_operator {s : Rest} (noSymbol : ∀ text ∈ operatorSymbols, Rest.isAt text s = false) :
    grammar.operators.find? (·.applies ctx s) = none := by
  simp only [operatorSymbols, List.mem_cons, List.not_mem_nil, or_false] at noSymbol
  simp [grammar, Rest.isAtAny, noSymbol]

theorem find_call (s : Rest) : grammar.operators.find? (·.applies ctx (.source "(" :: s)) = some callRule := rfl

namespace Infix

def rule : Infix → Operator
  | or => orRule
  | and => andRule
  | compare _ => compareRule
  | arith .add | arith .sub => arithmeticRule ["+", "-"] termLevel
  | arith _ => arithmeticRule ["*", "/", "%"] factorLevel

theorem precedence_rule (op : Infix) : op.rule.precedence = op.level := by
  cases op with
  | arith op => cases op <;> rfl
  | _ => rfl

theorem symbol_mem {op : Infix} (known : op.Known) : op.symbol ∈ inks := by
  cases op with
  | or | and => decide
  | compare op =>
    cases op with
    | other symbol => exact absurd rfl (known symbol)
    | _ => decide
  | arith op =>
    cases op with
    | floorDiv | pow | other symbol => simp [Known] at known
    | _ => decide

theorem find_rule {op : Infix} (known : op.Known) (s : Rest) :
    grammar.operators.find? (·.applies ctx (.source op.symbol :: s)) = some op.rule := by
  cases op with
  | or | and => rfl
  | compare op =>
    cases op with
    | other symbol => exact absurd rfl (known symbol)
    | _ => rfl
  | arith op =>
    cases op with
    | floorDiv | pow | other symbol => simp [Known] at known
    | _ => rfl

end Infix

/-- An operator that binds less tightly than this ends a phrase of the given
level. An operator of the same level extends it, unless its last operand has
been read at that level. -/
def edge (p : Precedence) : Precedence :=
  if p = unaryLevel then p else p + 1

theorem le_edge (p : Precedence) : p ≤ edge p := by
  unfold edge
  split
  · exact Int.le_refl p
  · exact Int.le_of_lt (Int.lt_succ p)

theorem Infix.level_lt_edge (op : Infix) {p : Precedence} (binds : op.level ≤ p) : op.level < edge p := by
  have below := op.level_lt
  unfold edge
  split
  next unary => rwa [unary]
  next => exact Int.lt_add_one_of_le binds

theorem callLevel_lt_edge {p : Precedence} (binds : callLevel ≤ p) : callLevel < edge p := by
  have other : p ≠ unaryLevel := by
    rintro rfl
    exact absurd binds (by decide)
  rw [edge, if_neg other]
  exact Int.lt_add_one_of_le binds

theorem Infix.edge_level (op : Infix) : edge op.level = op.level + 1 := by
  rw [edge, if_neg (Int.ne_of_lt op.level_lt)]

def manner : Grammar.Manner := ⟨skipSpace, edge, Apart⟩

theorem skipSpace_idem (s : Rest) : skipSpace (skipSpace s) = skipSpace s :=
  skipFrom_idem false false s

theorem Plain.suits (plain : Plain ctx) : manner.Suits grammar ctx where
  placeless := plain.placeless
  skipSpace := plain.skipSpace
  skip_idem := skipSpace_idem
  length_skip_le := length_skipFrom_le false false
  le_edge := le_edge
  unbounded := plain.unbounded

abbrev Readable (ctx : Context) (p : Precedence) (x : Expr) (shape : Rest) : Prop :=
  Grammar.Readable grammar ctx manner p x shape

theorem readable_operand (plain : Plain ctx) {rule : Operand} {x : Expr} {shape : Rest} (opens : Opens shape)
    (found : ∀ s, Apart s → grammar.operands.find? (·.applies ctx (shape ++ s)) = some rule)
    (parsed : ∀ fuel depth s, shape.length ≤ fuel → Apart s →
      Reads (rule.parse (grammar.nestedAt fuel depth)) ctx (shape ++ s) x s) :
    Readable ctx callLevel x shape := by
  refine Grammar.readable_operand plain.suits (fun s => (opens.append s).skipSpace) found ?_
  intro fuel depth s fueled clear stops
  exact ⟨s, rfl, length_skipFrom_le false false s, parsed fuel depth s fueled clear⟩

theorem reads_skipSpace (plain : Plain ctx) (s : Rest) : Reads Parser.skipSpace ctx s () (skipSpace s) := by
  have read : Reads Parser.skipSpace ctx s () (ctx.skipSpace s) :=
    Reads.skipSpace plain.placeless.toPlaceless s
  rwa [plain.skipSpace] at read

theorem reads_skipSpace_symbol (plain : Plain ctx) {text : String} (symbol : text ∈ inks) (s : Rest) :
    Reads Parser.skipSpace ctx (.source text :: s) () (.source text :: s) := by
  have read := reads_skipSpace plain (.source text :: s)
  rwa [skipSpace_symbol symbol] at read

structure Ends (ctx : Context) (s : Rest) : Prop where
  clear : Apart s
  stops : ∀ least, grammar.Stops ctx least s

def closers : List String := [")", ",", "=", ";", "\x7b"]

theorem ends_closer (plain : Plain ctx) {text : String} (closer : text ∈ closers) {s : Rest}
    (here : Rest.isAt text s) : Ends ctx s ∧ skipSpace s = s := by
  cases s with
  | nil => cases here
  | cons l t =>
    simp only [Rest.isAt, Bool.and_eq_true, Bool.not_eq_true', beq_iff_eq] at here
    obtain ⟨real, rfl⟩ := here
    have all : ∀ text ∈ closers, text ∈ symbols ∧ text ∉ [".", "!"] ∧ text ≠ "//" ∧ text ∉ operatorSymbols ∧
        (Lexeme.source text).isSpace true = false := by
      decide
    obtain ⟨symbol, noMark, code, noOperator, ink⟩ := all _ closer
    simp only [List.mem_cons, List.not_mem_nil, or_false, not_or] at noMark
    have noWord : l.isWord = false := by
      rw [Lexeme.isWord, isWordText_symbol _ symbol, Bool.and_false]
    have solid : Solid false l := by
      refine ⟨?_, Or.inr ⟨code, rfl⟩⟩
      rw [← ink]
      simp [Lexeme.isSpace, real]
    refine ⟨⟨?_, ?_⟩, skipFrom_solid solid t⟩
    · refine ⟨⟨?_, by simp [Rest.isAt, noMark]⟩, by simp [Rest.isAt, noMark]⟩
      rintro _ ⟨⟩
      exact noWord
    · intro least rule found
      rw [plain.skipSpace, skipSpace, skipFrom_solid solid, find_no_operator] at found
      · cases found
      · intro text member
        have other : l.text ≠ text := by
          rintro rfl
          exact noOperator member
        simp [Rest.isAt, other]

theorem Ends.behind_blank (plain : Plain ctx) {s : Rest} (ends : Ends ctx s) : Ends ctx (.source " " :: s) := by
  refine ⟨apart_symbol (by decide) (by decide) s, fun least rule found => ends.stops least rule ?_⟩
  rwa [plain.skipSpace, skipSpace_blank, ← plain.skipSpace] at found

theorem Phrase.lowest_le {p : Precedence} {x : Expr} {shape : Rest} (phrase : Phrase p x shape) :
    lowest ≤ p := by
  cases phrase with
  | @between op =>
    cases op with
    | compare op => exact (by decide : lowest ≤ comparisonLevel)
    | arith op =>
      cases op with
      | other symbol => exact (by decide : lowest ≤ factorLevel)
      | _ => decide
    | _ => decide
  | _ => decide

theorem whole (plain : Plain ctx) {p : Precedence} {x : Expr} {shape : Rest}
    (readable : Readable ctx p x shape) (phrase : Phrase p x shape) {fuel depth : Nat} {u s : Rest}
    (fueled : shape.length < fuel) (ends : Ends ctx s) (written : skipSpace u = shape ++ s) :
    Reads ((grammar.nestedAt fuel depth).expr lowest) ctx u x (skipSpace s) :=
  Grammar.Readable.nested plain.suits readable fueled phrase.lowest_le ends.clear (ends.stops lowest) written

theorem whole_closer (plain : Plain ctx) {p : Precedence} {x : Expr} {shape : Rest}
    (readable : Readable ctx p x shape) (phrase : Phrase p x shape) {fuel depth : Nat} {u s : Rest}
    (fueled : shape.length < fuel) {text : String} (closer : text ∈ closers)
    (written : skipSpace u = shape ++ .source text :: s) :
    Reads ((grammar.nestedAt fuel depth).expr lowest) ctx u x (.source text :: s) := by
  have ends : Ends ctx (.source text :: s) ∧ skipSpace (.source text :: s) = .source text :: s :=
    ends_closer plain closer (by simp)
  have read : Reads ((grammar.nestedAt fuel depth).expr lowest) ctx u x _ :=
    whole plain readable phrase fueled ends.1 written
  rwa [ends.2] at read

theorem span_digits {text : List Char} (digits : ∀ c ∈ text, c.isDigit) {s : Rest} (clear : Clear s) :
    Parser.spanNumber false (letters text ++ s) = (letters text, s) := by
  obtain ⟨taken, dropped⟩ := Parser.span_digits (isDigits_letters digits) clear.not_atDigit
  simp only [Parser.spanNumber, taken, dropped]
  cases s with
  | nil => rfl
  | cons l s => cases s <;> rfl

theorem readable_int (plain : Plain ctx) {n : Int64} (unsigned : 0 ≤ n.toInt) :
    Readable ctx callLevel (.literal (.int n)) (letters (Text.decimal n.toInt).toList) := by
  obtain ⟨digits, nonempty, value⟩ := decimal_unsigned unsigned
  have most : n.toInt ≤ Int64.maxValue.toInt := Int64.toInt_le n
  have same : Int64.ofNat n.toInt.toNat = n := by
    rw [← Int64.ofInt_eq_ofNat, Int.toNat_of_nonneg unsigned, Int64.ofInt_toInt]
  refine readable_operand plain (Phrase.int unsigned).opens (fun s _ => find_int nonempty digits s) ?_
  intro fuel depth s fueled clear
  refine (Parser.reads_number (span_digits digits clear.toClear)).bind ?_
  rw [text_letters, String.ofList_toList, value]
  have fits : ((n.toInt.toNat : Nat) : Int) ≤ Int64.maxValue.toInt := by
    rwa [Int.toNat_of_nonneg unsigned]
  rw [if_pos fits, same]
  exact Reads.pure _ s

theorem readable_str (plain : Plain ctx) {contents : Rest} {text : String}
    (spelled : Parser.Contents "\"" contents text) :
    Readable ctx callLevel (.literal (.str text)) (quotedLexemes contents) := by
  refine readable_operand plain (Phrase.str spelled).opens (fun s _ => (find_symbol _).1) ?_
  intro fuel depth s fueled clear
  have written : quotedLexemes contents ++ s = .source "\"" :: (contents ++ .source "\"" :: s) := by
    simp [quotedLexemes]
  rw [written]
  exact (Parser.reads_string (by decide) spelled s).bind (Reads.pure _ s)

theorem readable_flag (plain : Plain ctx) (b : Bool) :
    Readable ctx callLevel (.literal (.flag b)) (letters (Value.boolText b).toList) := by
  have wordlike : ∀ c ∈ (Value.boolText b).toList, Text.isWordChar c := by cases b <;> decide
  have found (s : Rest) (clear : Apart s) :
      grammar.operands.find? (·.applies ctx (letters (Value.boolText b).toList ++ s)) = some flagRule := by
    cases b with
    | false =>
      have word := @find_word ctx 'f' ['a', 'l', 's', 'e'] (by decide) (by decide) s clear.toClear
      exact word.trans (if_pos (by decide))
    | true =>
      have word := @find_word ctx 't' ['r', 'u', 'e'] (by decide) (by decide) s clear.toClear
      exact word.trans (if_pos (by decide))
  refine readable_operand plain (Phrase.flag b).opens found ?_
  intro fuel depth s fueled clear
  refine (reads_letters wordlike clear.toClear).bind ?_
  have value : (String.ofList (Value.boolText b).toList == "true") = b := by cases b <;> decide
  rw [value]
  exact Reads.pure _ s

theorem readable_var (plain : Plain ctx) {name : String} (valid : IsName name) :
    Readable ctx callLevel (.var name) (letters name.toList) := by
  obtain ⟨c, text, chars, start, letter⟩ := valid.parts
  have word := valid.wordChars
  have found (s : Rest) (clear : Apart s) :
      grammar.operands.find? (·.applies ctx (letters name.toList ++ s)) = some variableRule := by
    have free : String.ofList (c :: text) ∉ reserved := by
      rw [← chars, String.ofList_toList]
      exact valid.free
    have keywords : ∀ keyword ∈ ["true", "false"], keyword ∈ reserved := by decide
    have other : String.ofList (c :: text) ∉ ["true", "false"] := fun member => free (keywords _ member)
    have opening := isNameStart_letters text start s
    rw [chars] at word ⊢
    have noMacro : ¬(String.ofList (c :: text) = "format" ∧ Rest.isAt "!" s = true) := by
      rw [clear.noMark]
      exact fun both => Bool.noConfusion both.2
    rw [find_word letter word clear.toClear, if_neg other, if_neg noMacro, if_pos ⟨opening, free⟩]
  refine readable_operand plain (opens_letters valid.ne_nil word) found ?_
  intro fuel depth s fueled clear
  exact (valid.reads clear.toClear).bind (Reads.pure _ s)

theorem readable_group (plain : Plain ctx) {p : Precedence} {x : Expr} {inner : Rest}
    (phrase : Phrase p x inner) (readable : Readable ctx p x inner) :
    Readable ctx callLevel x (enclosed inner) := by
  have found (s : Rest) (_ : Apart s) :
      grammar.operands.find? (·.applies ctx (enclosed inner ++ s)) = some groupRule :=
    (find_symbol _).2.2.2
  refine readable_operand plain (Phrase.group phrase).opens found ?_
  intro fuel depth s fueled clear
  have parts : enclosed inner ++ s = .source "(" :: (inner ++ .source ")" :: s) := by simp [enclosed]
  have shorter : inner.length < fuel := by simp [enclosed] at fueled; omega
  rw [parts]
  refine Reads.advance fun _ _ => ?_
  refine (whole_closer plain readable phrase shorter (by decide) (phrase.opens.append _).skipSpace).bind ?_
  refine (reads_skipSpace_symbol plain (by decide) s).bind ?_
  exact Reads.expect (isAtAny_singleton ")" s) fun _ _ => Reads.pure x s

theorem readable_sign (plain : Plain ctx) {sign : String} (known : sign ∈ ["-", "!"]) {rule : Operand}
    {build : Expr → Expr} (found : ∀ s, grammar.operands.find? (·.applies ctx (.source sign :: s)) = some rule)
    (parses : ∀ nested, rule.parse nested =
      (Parser.advance >>= fun _ => nested.expr unaryLevel >>= fun x => pure (build x)))
    {p : Precedence} {x : Expr} {inner : Rest} (binds : unaryLevel ≤ p) (phrase : Phrase p x inner)
    (readable : Readable ctx p x inner) : Readable ctx unaryLevel (build x) (.source sign :: inner) := by
  have opening : ∀ sign ∈ ["-", "!"], sign ∈ beginnings := by decide
  have opens : Opens (.source sign :: inner) := opens_symbol (opening sign known) inner
  refine Grammar.readable_operand plain.suits (fun s => (opens.append s).skipSpace) (fun s _ => found _) ?_
  intro fuel depth s fueled clear stops
  have shorter : inner.length < fuel := fueled
  have written : skipSpace (inner ++ s) = inner ++ s := (phrase.opens.append s).skipSpace
  refine ⟨skipSpace s, skipSpace_idem s, Nat.le_refl _, ?_⟩
  rw [parses]
  refine Reads.advance fun _ _ => ?_
  exact (Grammar.Readable.nested plain.suits readable shorter binds clear stops written).bind (Reads.pure _ _)

theorem skipSpace_listed {args : List Expr} {levels : Expr → Precedence} {parts : Expr → Rest}
    (phrases : ∀ x ∈ args, Phrase (levels x) x (parts x)) (s : Rest) :
    skipSpace (listed (args.map parts) ++ .source ")" :: s) = listed (args.map parts) ++ .source ")" :: s := by
  match args with
  | [] => exact skipSpace_symbol (by decide) s
  | [x] => exact ((phrases x (by simp)).opens.append _).skipSpace
  | x :: y :: more =>
    simp only [listed, List.map_cons, Rest.joined, List.append_assoc]
    exact ((phrases x (by simp)).opens.append _).skipSpace

theorem skipSpace_separator : ∀ text ∈ [",", ")"], ∀ t, skipSpace (.source text :: t) = .source text :: t := by
  intro text member t
  have ink : ∀ text ∈ [",", ")"], text ∈ inks := by decide
  exact skipSpace_symbol (ink text member) t

theorem reads_arguments (plain : Plain ctx) {args : List Expr} {levels : Expr → Precedence}
    {parts : Expr → Rest} (phrases : ∀ x ∈ args, Phrase (levels x) x (parts x))
    (readable : ∀ x ∈ args, Readable ctx (levels x) x (parts x)) {fuel depth : Nat} {s : Rest}
    (fueled : (listed (args.map parts)).length < fuel) :
    Reads (arguments (grammar.nestedAt fuel depth)) ctx (listed (args.map parts) ++ .source ")" :: s) args s := by
  have form : Parser.ListForm ctx "," ")" (fun _ => (grammar.nestedAt fuel depth).expr lowest) parts [] args := by
    constructor
    · intro x member t
      have opens := (phrases x member).opens.append t
      rw [plain.skipSpace]
      exact ⟨opens.skipSpace, opens.isAt_eq_false (by decide) (by decide)⟩
    · intro before x after t split _ here
      have member : x ∈ args := by
        rw [List.nil_append] at split
        simp [split]
      have shorter : (parts x).length < fuel :=
        Nat.lt_of_le_of_lt (length_parts_le (List.mem_map_of_mem member)) fueled
      have opens := ((phrases x member).opens.append t).skipSpace
      have ends : Ends ctx t ∧ skipSpace t = t := by
        rcases here with comma | closed
        · exact ends_closer plain (by decide) comma
        · exact ends_closer plain (by decide) closed
      have read : Reads ((grammar.nestedAt fuel depth).expr lowest) ctx (parts x ++ t) x (skipSpace t) :=
        whole plain (readable x member) (phrases x member) shorter ends.1 opens
      rwa [ends.2] at read
  have solid := skipSpace_listed phrases s
  have gap (t : Rest) : ctx.skipSpace (.source " " :: t) = ctx.skipSpace t := by
    rw [plain.skipSpace]
    rfl
  have still : ∀ text ∈ [",", ")"], ∀ t, ctx.skipSpace (.source text :: t) = .source text :: t := by
    rw [plain.skipSpace]
    exact skipSpace_separator
  have shorter : args.length ≤ (listed (args.map parts) ++ .source ")" :: s).length := by
    have fewer := Rest.length_joined [.source ",", .source " "] (args.map parts) (by decide)
    simp only [listed, List.length_append, List.length_cons, List.length_map] at fewer ⊢
    omega
  rw [← plain.skipSpace] at solid
  exact Parser.reads_list plain.placeless.toPlaceless (by decide) gap still args form _ s shorter solid

def ofMacro? : List Expr → Option Expr
  | [] => some (.literal (.str ""))
  | .literal (.str template) :: rest => some (.format template rest)
  | [x] => some x
  | _ => none

theorem ofMacro?_eq_some {args : List Expr} {x : Expr} (stands : ofMacro? args = some x) :
    (args = [] ∧ x = .literal (.str "")) ∨
      (∃ template rest, args = .literal (.str template) :: rest ∧ x = .format template rest) ∨
      (args = [x] ∧ ∀ template, x ≠ .literal (.str template)) := by
  unfold ofMacro? at stands
  split at stands
  next =>
    cases stands
    exact Or.inl ⟨rfl, rfl⟩
  next template rest =>
    cases stands
    exact Or.inr (Or.inl ⟨template, rest, rfl, rfl⟩)
  next only other =>
    cases stands
    exact Or.inr (Or.inr ⟨rfl, fun template same => other template same⟩)
  next => cases stands

theorem reads_bang (plain : Plain ctx) {word : String} (wordlike : ∀ c ∈ word.toList, Text.isWordChar c)
    {args : List Expr} {levels : Expr → Precedence} {parts : Expr → Rest}
    (phrases : ∀ x ∈ args, Phrase (levels x) x (parts x))
    (readable : ∀ x ∈ args, Readable ctx (levels x) x (parts x)) {x : Expr} (stands : ofMacro? args = some x)
    {fuel depth : Nat} {s : Rest} (fueled : (macroLexemes word (args.map parts)).length ≤ fuel) :
    Reads (bangArguments (grammar.nestedAt fuel depth)) ctx (macroLexemes word (args.map parts) ++ s) x s := by
  have shorter : (listed (args.map parts)).length < fuel := by
    simp only [macroLexemes, enclosed, List.length_append, List.length_cons] at fueled
    omega
  simp only [macroLexemes, enclosed, List.append_assoc, List.cons_append, List.nil_append]
  refine (reads_letters wordlike (clear_symbol (by decide) _)).bind ?_
  refine Reads.advance fun _ _ => ?_
  refine (reads_skipSpace_symbol plain (by decide) _).bind ?_
  refine Reads.expect (isAtAny_singleton "(" _) fun _ _ => ?_
  refine (reads_arguments plain phrases readable shorter).bind ?_
  rcases ofMacro?_eq_some stands with ⟨rfl, rfl⟩ | ⟨template, others, rfl, rfl⟩ | ⟨rfl, other⟩
  · exact Reads.pure _ s
  · exact Reads.pure _ s
  · split
    next same => cases same
    next template others same =>
      cases same
      exact absurd rfl (other template)
    next same =>
      cases same
      exact Reads.pure _ s
    next none => exact absurd rfl (none _)

theorem readable_format (plain : Plain ctx) {template : String} {args : List Expr}
    {levels : Expr → Precedence} {parts : Expr → Rest}
    (phrases : ∀ x ∈ .literal (.str template) :: args, Phrase (levels x) x (parts x))
    (readable : ∀ x ∈ .literal (.str template) :: args, Readable ctx (levels x) x (parts x)) :
    Readable ctx callLevel (.format template args)
      (macroLexemes "format" ((.literal (.str template) :: args).map parts)) := by
  have found (s : Rest) (_ : Apart s) : grammar.operands.find? (·.applies ctx
      (macroLexemes "format" ((.literal (.str template) :: args).map parts) ++ s)) = some formatRule := by
    rw [macroLexemes, List.append_assoc, List.cons_append]
    have word := @find_word ctx 'f' ['o', 'r', 'm', 'a', 't'] (by decide) (by decide)
      (.source "!" :: (enclosed (listed ((.literal (.str template) :: args).map parts)) ++ s))
      (clear_symbol (by decide) _)
    exact word.trans rfl
  refine readable_operand plain (Phrase.format phrases).opens found ?_
  intro fuel depth s fueled clear
  exact @reads_bang ctx plain "format" (by decide) _ levels parts phrases readable _ rfl fuel depth s fueled

theorem readable_call (plain : Plain ctx) {f : Expr} {p : Precedence} {callee : Rest} {args : List Expr}
    {levels : Expr → Precedence} {parts : Expr → Rest} (binds : callLevel ≤ p)
    (callable : Readable ctx p f callee) (phrases : ∀ x ∈ args, Phrase (levels x) x (parts x))
    (readable : ∀ x ∈ args, Readable ctx (levels x) x (parts x)) :
    Readable ctx callLevel (.call f args) (callee ++ enclosed (listed (args.map parts))) := by
  refine Grammar.Readable.extended plain.suits callable [] (enclosed (listed (args.map parts))) rfl binds
    (callLevel_lt_edge binds) (fun s => apart_symbol (by decide) (by decide) _) (fun s => ?solid)
    (List.cons_ne_nil _ _) (fun s => find_call _) ?_
  case solid => exact skipSpace_symbol (by decide : "(" ∈ inks) _
  intro fuel depth s fueled clear stops
  have shorter : (listed (args.map parts)).length < fuel := by
    simp only [enclosed, List.length_append, List.length_cons] at fueled
    omega
  refine ⟨s, rfl, ?_⟩
  simp only [enclosed, List.append_assoc, List.cons_append, List.nil_append]
  refine Reads.advance fun _ _ => ?_
  exact (reads_arguments plain phrases readable shorter).bind (Reads.pure _ s)

theorem Infix.ofSymbol {op : Infix} (known : op.Known) :
    (∀ c, op = .compare c → CompareOp.ofSymbol c.symbol = c) ∧ ∀ a, op = .arith a → ArithOp.ofSymbol a.symbol = a := by
  constructor
  · rintro c rfl
    cases c with
    | other symbol => exact absurd rfl (known symbol)
    | _ => rfl
  · rintro a rfl
    cases a with
    | other symbol => simp [Known] at known
    | _ => rfl

theorem reads_infix (plain : Plain ctx) {op : Infix} (known : op.Known) {l r : Expr} {q : Precedence}
    {right : Rest} (binds : op.level + 1 ≤ q) (phrase : Phrase q r right) (readable : Readable ctx q r right)
    {fuel depth : Nat} {s : Rest} (fueled : right.length < fuel) (clear : Apart s)
    (stops : grammar.Stops ctx (op.level + 1) s) :
    Reads (op.rule.parse (grammar.nestedAt fuel depth) l) ctx
      (.source op.symbol :: .source " " :: (right ++ s)) (op.tree l r) (skipSpace s) := by
  have written : skipSpace (.source " " :: (right ++ s)) = right ++ s := (phrase.opens.append s).skipSpace
  have operand : Reads ((grammar.nestedAt fuel depth).expr (op.level + 1)) ctx (.source " " :: (right ++ s)) r
      (skipSpace s) :=
    Grammar.Readable.nested plain.suits readable fueled binds clear stops written
  obtain ⟨comparison, arithmetic⟩ := Infix.ofSymbol known
  cases op with
  | or => exact Reads.advance fun _ _ => operand.bind (Reads.pure _ _)
  | and => exact Reads.advance fun _ _ => operand.bind (Reads.pure _ _)
  | compare op =>
    refine Reads.advance fun found text => operand.bind ?_
    rw [text]
    show Reads (Pure.pure (Expr.intCompare (CompareOp.ofSymbol op.symbol) l r)) ctx _ _ _
    rw [comparison op rfl]
    exact Reads.pure _ _
  | arith op =>
    have read (symbols : List String) (level : Precedence) (same : level = (Infix.arith op).level) :
        Reads ((arithmeticRule symbols level).parse (grammar.nestedAt fuel depth) l) ctx
          (.source op.symbol :: .source " " :: (right ++ s)) (.intBinary op l r) (skipSpace s) := by
      subst same
      refine Reads.advance fun found text => operand.bind ?_
      rw [text]
      show Reads (Pure.pure (Expr.intBinary (ArithOp.ofSymbol op.symbol) l r)) ctx _ _ _
      rw [arithmetic op rfl]
      exact Reads.pure _ _
    cases op with
    | _ => exact read _ _ rfl

theorem readable_between (plain : Plain ctx) {op : Infix} (known : op.Known) {l r : Expr}
    {p q : Precedence} {left right : Rest} (leftBinds : op.level ≤ p) (rightBinds : op.level + 1 ≤ q)
    (leftReadable : Readable ctx p l left) (phrase : Phrase q r right) (readable : Readable ctx q r right) :
    Readable ctx op.level (op.tree l r)
      (left ++ .source " " :: .source op.symbol :: .source " " :: right) := by
  refine Grammar.Readable.extended plain.suits leftReadable [.source " "]
    (.source op.symbol :: .source " " :: right) op.precedence_rule leftBinds (op.level_lt_edge leftBinds)
    (fun s => apart_symbol (by decide) (by decide) _) (fun s => skipSpace_symbol (Infix.symbol_mem known) _)
    (List.cons_ne_nil _ _) (fun s => Infix.find_rule known _) ?_
  intro fuel depth s fueled clear stops
  have shorter : right.length < fuel := by
    simp only [List.length_cons] at fueled
    omega
  have ends : grammar.Stops ctx (op.level + 1) s := by
    rw [← op.edge_level]
    exact stops
  exact ⟨skipSpace s, skipSpace_idem s, reads_infix plain known rightBinds phrase readable shorter clear ends⟩

theorem Phrase.readable (plain : Plain ctx) {p : Precedence} {x : Expr} {shape : Rest}
    (phrase : Phrase p x shape) : Readable ctx p x shape := by
  induction phrase with
  | int unsigned => exact readable_int plain unsigned
  | flag b => exact readable_flag plain b
  | str spelled => exact readable_str plain spelled
  | var valid => exact readable_var plain valid
  | group inner ih => exact readable_group plain inner ih
  | between known leftBinds rightBinds left right ihLeft ihRight =>
    exact readable_between plain known leftBinds rightBinds ihLeft right ihRight
  | negate binds inner ih =>
    exact readable_sign plain (by decide) (fun s => (find_symbol s).2.1) (fun _ => rfl) binds inner ih
  | not binds inner ih =>
    exact readable_sign plain (by decide) (fun s => (find_symbol s).2.2.1) (fun _ => rfl) binds inner ih
  | call binds callee ordinary each ihCallee ih => exact readable_call plain binds ihCallee each ih
  | format each ih => exact readable_format plain each ih

theorem FormedExpr.skipSpace_spell {x : Expr} (formed : FormedExpr x) (s : Rest) :
    skipSpace (lexed (spell x) ++ s) = lexed (spell x) ++ s :=
  (formed.phrase.opens.append s).skipSpace

theorem FormedExpr.reads (plain : Plain ctx) {x : Expr} (formed : FormedExpr x) {fuel depth : Nat}
    {u s : Rest} (fueled : (lexed (spell x)).length < fuel) {text : String} (closer : text ∈ closers)
    (written : skipSpace u = lexed (spell x) ++ .source text :: s) :
    Reads ((grammar.nestedAt fuel depth).expr lowest) ctx u x (.source text :: s) :=
  whole_closer plain (formed.phrase.readable plain) formed.phrase fueled closer written

theorem FormedExpr.reads_blank (plain : Plain ctx) {x : Expr} (formed : FormedExpr x) {fuel depth : Nat}
    {u s : Rest} (fueled : (lexed (spell x)).length < fuel) {text : String} (closer : text ∈ closers)
    (written : skipSpace u = lexed (spell x) ++ .source " " :: .source text :: s) :
    Reads ((grammar.nestedAt fuel depth).expr lowest) ctx u x (.source text :: s) := by
  have ends : Ends ctx (.source text :: s) ∧ skipSpace (.source text :: s) = .source text :: s :=
    ends_closer plain closer (by simp)
  have read : Reads ((grammar.nestedAt fuel depth).expr lowest) ctx u x _ :=
    whole plain (formed.phrase.readable plain) formed.phrase fueled (ends.1.behind_blank plain) written
  rwa [skipSpace_blank, ends.2] at read

end ScriptKernel.MiniRust
