import ScriptKernel.Proofs.MiniRust.Rendering
import ScriptKernel.Proofs.Number.Texts
import ScriptKernel.Proofs.Parse.Words
import ScriptKernel.Proofs.Text.Quoted

/-!
Expressions of MiniRust as runs of lexemes. A phrase relates an expression to
the lexemes it is written with and to the level at which they bind. Every
well-formed expression is rendered as a phrase of it.
-/

namespace ScriptKernel.MiniRust

open Written
open Lumen (parenthesized commas escaped quoted)

def Infix.Known : Infix → Prop
  | or | and => True
  | compare op => ∀ symbol, op ≠ .other symbol
  | arith op => op ∈ [.add, .sub, .mul, .div, .mod]

theorem Infix.level_lt (op : Infix) : op.level < unaryLevel := by
  cases op with
  | compare op => exact (by decide : comparisonLevel < unaryLevel)
  | arith op =>
    cases op with
    | other symbol => exact (by decide : factorLevel < unaryLevel)
    | _ => decide
  | _ => decide

abbrev IsName (name : String) : Prop :=
  Written.IsName reserved name

inductive FormedExpr : Expr → Prop
  | int {n : Int64} (unsigned : 0 ≤ n.toInt) : FormedExpr (.literal (.int n))
  | flag (b : Bool) : FormedExpr (.literal (.flag b))
  | str (text : String) : FormedExpr (.literal (.str text))
  | var {name : String} (valid : IsName name) : FormedExpr (.var name)
  | between {op : Infix} {l r : Expr} (known : op.Known) (left : FormedExpr l) (right : FormedExpr r) :
      FormedExpr (op.tree l r)
  | negate {x : Expr} (inner : FormedExpr x) : FormedExpr (.intNegate x)
  | not {x : Expr} (inner : FormedExpr x) : FormedExpr (.flagNot x)
  | call {f : Expr} {args : List Expr} (callee : FormedExpr f) (each : ∀ x ∈ args, FormedExpr x) :
      FormedExpr (.call f args)
  | format {template : String} {args : List Expr} (each : ∀ x ∈ args, FormedExpr x) :
      FormedExpr (.format template args)

theorem FormedExpr.isName {name : String} (formed : FormedExpr (.var name)) : IsName name := by
  generalize same : Expr.var name = x at formed
  cases formed with
  | var valid =>
    cases same
    exact valid
  | @between op => cases op <;> cases same
  | _ => cases same

def macroLexemes (word : String) (parts : List Rest) : Rest :=
  letters word.toList ++ .source "!" :: enclosed (listed parts)

inductive Phrase : Precedence → Expr → Rest → Prop
  | int {n : Int64} (unsigned : 0 ≤ n.toInt) :
      Phrase callLevel (.literal (.int n)) (letters (Text.decimal n.toInt).toList)
  | flag (b : Bool) : Phrase callLevel (.literal (.flag b)) (letters (Value.boolText b).toList)
  | str {contents : Rest} {text : String} (spelled : Parser.Contents "\"" contents text) :
      Phrase callLevel (.literal (.str text)) (quotedLexemes contents)
  | var {name : String} (valid : IsName name) : Phrase callLevel (.var name) (letters name.toList)
  | group {p : Precedence} {x : Expr} {inner : Rest} (phrase : Phrase p x inner) :
      Phrase callLevel x (enclosed inner)
  | between {op : Infix} {l r : Expr} {p q : Precedence} {left right : Rest} (known : op.Known)
      (leftBinds : op.level ≤ p) (rightBinds : op.level + 1 ≤ q) (leftPhrase : Phrase p l left)
      (rightPhrase : Phrase q r right) :
      Phrase op.level (op.tree l r)
        (left ++ .source " " :: .source op.symbol :: .source " " :: right)
  | negate {x : Expr} {p : Precedence} {inner : Rest} (binds : unaryLevel ≤ p)
      (phrase : Phrase p x inner) : Phrase unaryLevel (.intNegate x) (.source "-" :: inner)
  | not {x : Expr} {p : Precedence} {inner : Rest} (binds : unaryLevel ≤ p)
      (phrase : Phrase p x inner) : Phrase unaryLevel (.flagNot x) (.source "!" :: inner)
  | call {f : Expr} {p : Precedence} {callee : Rest} {args : List Expr}
      {levels : Expr → Precedence} {parts : Expr → Rest} (binds : callLevel ≤ p)
      (phrase : Phrase p f callee) (ordinary : callee ≠ letters "print".toList)
      (each : ∀ x ∈ args, Phrase (levels x) x (parts x)) :
      Phrase callLevel (.call f args) (callee ++ enclosed (listed (args.map parts)))
  | format {template : String} {args : List Expr} {levels : Expr → Precedence} {parts : Expr → Rest}
      (each : ∀ x ∈ .literal (.str template) :: args, Phrase (levels x) x (parts x)) :
      Phrase callLevel (.format template args)
        (macroLexemes "format" ((.literal (.str template) :: args).map parts))

def pairs : List (Char × Char) :=
  [('=', '='), ('!', '='), ('<', '='), ('>', '='), ('&', '&'), ('|', '|'), ('+', '='), ('-', '='),
   ('*', '='), ('/', '='), ('%', '='), ('-', '>'), ('/', '/')]

theorem paired : table.Paired pairs := by
  unfold Table.Paired
  cbv

theorem spaced : Spaced table pairs where
  paired := paired
  words := by decide
  starts := by decide
  ends := by decide

def lexed (text : List Char) : Rest :=
  Lexer.lexed table text

@[simp] theorem lexed_nil : lexed [] = [] :=
  Lexer.lexed_nil table

theorem lexed_char {c : Char} (starts : c ∉ pairs.map Prod.fst) (rest : List Char) :
    lexed (c :: rest) = .source (String.singleton c) :: lexed rest :=
  Lexer.lexed_char paired starts rest

theorem lexed_before {c : Char} (alone : c ∉ pairs.map Prod.fst ∧ c ∉ pairs.map Prod.snd)
    (first rest : List Char) :
    lexed (first ++ c :: rest) = lexed first ++ .source (String.singleton c) :: lexed rest := by
  have apart : ∀ d ∈ (c :: rest).head?, d ∉ pairs.map Prod.snd := by
    rintro _ ⟨⟩
    exact alone.2
  rw [lexed, Lexer.lexed_append paired apart, Lexer.lexed_char paired alone.1]
  rfl

theorem lexed_letters {text : List Char} (word : ∀ c ∈ text, Text.isWordChar c) (rest : List Char) :
    lexed (text ++ rest) = letters text ++ lexed rest :=
  spaced.lexed_letters (fun c member => spaced.starts_of_isWordChar (word c member)) rest

theorem lexed_word {text : List Char} (word : ∀ c ∈ text, Text.isWordChar c) : lexed text = letters text :=
  spaced.lexed_word word

theorem lexed_symbol {op : Infix} (known : op.Known) (rest : List Char) :
    lexed (' ' :: op.symbol.toList ++ ' ' :: rest) =
      .source " " :: .source op.symbol :: .source " " :: lexed rest := by
  have one {c : Char} (alone : (c, ' ') ∉ pairs) :
      lexed (' ' :: c :: ' ' :: rest) =
        .source " " :: .source (String.singleton c) :: .source " " :: lexed rest := by
    rw [lexed_char (by decide), lexed, Lexer.lexed_single paired (by rintro _ ⟨⟩; exact alone)]
    change _ :: _ :: lexed (' ' :: rest) = _
    rw [lexed_char (by decide)]
    rfl
  have two {c d : Char} (entry : (c, d) ∈ pairs) :
      lexed (' ' :: c :: d :: ' ' :: rest) =
        .source " " :: .source (String.ofList [c, d]) :: .source " " :: lexed rest := by
    rw [lexed_char (by decide), lexed, Lexer.lexed_pair paired entry]
    change _ :: _ :: lexed (' ' :: rest) = _
    rw [lexed_char (by decide)]
    rfl
  cases op with
  | or | and => exact two (by decide)
  | compare op =>
    cases op with
    | lt | gt => exact one (by decide)
    | other symbol => exact absurd rfl (known symbol)
    | _ => exact two (by decide)
  | arith op =>
    cases op with
    | floorDiv | pow | other symbol => simp [Infix.Known] at known
    | _ => exact one (by decide)

theorem lexed_append_parenthesized (first text : List Char) :
    lexed (first ++ parenthesized text) = lexed first ++ enclosed (lexed text) :=
  spaced.lexed_append_parenthesized first text

theorem lexed_spells (xs : List Expr) :
    lexed (commas (spells xs)) = listed (xs.map fun x => lexed (spell x)) := by
  rw [spells_eq_map, lexed, spaced.lexed_commas, List.map_map]
  rfl

theorem lexed_bang {word : String} (wordlike : ∀ c ∈ word.toList, Text.isWordChar c) (text : List Char) :
    lexed (word.toList ++ '!' :: parenthesized text) =
      letters word.toList ++ .source "!" :: enclosed (lexed text) := by
  have mark : lexed ['!'] = [.source "!"] := by
    rw [lexed, Lexer.lexed_single paired (by simp), Lexer.lexed_nil]
    rfl
  have split : word.toList ++ '!' :: parenthesized text = (word.toList ++ ['!']) ++ parenthesized text := by
    simp
  rw [split, lexed_append_parenthesized, lexed_letters wordlike, mark]
  simp

theorem decimal_unsigned {n : Int} (unsigned : 0 ≤ n) :
    (∀ c ∈ (Text.decimal n).toList, c.isDigit) ∧ (Text.decimal n).toList ≠ [] ∧
      Decimal.digitsValue (Text.decimal n).toList = n.toNat := by
  obtain ⟨m, rfl⟩ := Int.eq_ofNat_of_zero_le unsigned
  have digits : (Text.decimal m).toList = Nat.toDigits 10 m := String.toList_ofList
  rw [digits]
  refine ⟨Decimal.isDigit_toDigits m, Nat.toDigits_ne_nil, ?_⟩
  rw [Decimal.digitsValue_eq, Nat.ofDigitChars_ten_toDigits]
  rfl

theorem lexed_decimal {n : Int} (unsigned : 0 ≤ n) :
    lexed (Text.decimal n).toList = letters (Text.decimal n).toList :=
  lexed_word fun c member => isWordChar_of_isDigit ((decimal_unsigned unsigned).1 c member)

/-- A text that a sign before it does not run into. -/
def Blunt (text : List Char) : Prop :=
  ∀ d ∈ text.head?, d ∉ ['=', '>']

theorem Blunt.append {first second : List Char} (blunt : Blunt first) (behind : Blunt second) :
    Blunt (first ++ second) := by
  cases first with
  | nil => exact behind
  | cons c rest => exact blunt

theorem blunt_word {text : List Char} (word : ∀ c ∈ text, Text.isWordChar c) : Blunt text := by
  intro d head entry
  have other : ∀ d ∈ ['=', '>'], Text.isWordChar d = false := by decide
  have letter := word d (List.mem_of_mem_head? head)
  rw [other d entry] at letter
  cases letter

theorem Blunt.grouped {required : Precedence} {x : Expr} {text : List Char} (blunt : Blunt text) :
    Blunt (grouped required x text) := by
  unfold MiniRust.grouped
  split
  · rintro _ ⟨⟩
    decide
  · exact blunt

theorem Blunt.called {f : Expr} {text : List Char} (blunt : Blunt text) : Blunt (called f text) := by
  unfold MiniRust.called
  split
  · split
    · rintro _ ⟨⟩
      decide
    · exact blunt
  · exact blunt.grouped

theorem FormedExpr.blunt {x : Expr} (formed : FormedExpr x) : Blunt (spell x) := by
  have mark {c : Char} {rest : List Char} (other : c ∉ ['=', '>']) : Blunt (c :: rest) := by
    rintro _ ⟨⟩
    exact other
  induction formed with
  | int unsigned =>
    exact blunt_word fun c member => isWordChar_of_isDigit ((decimal_unsigned unsigned).1 c member)
  | flag b => cases b <;> exact mark (by decide)
  | str text => exact mark (by decide)
  | var valid => exact blunt_word valid.wordChars
  | between known left right ihLeft ihRight =>
    rw [spell_tree, Infix.spell, List.append_assoc]
    exact ihLeft.grouped.append (mark (by decide : ' ' ∉ ['=', '>']))
  | negate inner ih => exact mark (by decide)
  | not inner ih => exact mark (by decide)
  | call callee each ihCallee ih => exact ihCallee.called.append (mark (by decide : '(' ∉ ['=', '>']))
  | format each ih => exact mark (by decide)

theorem lexed_sign {sign : Char} (known : sign ∈ ['-', '!']) {text : List Char} (blunt : Blunt text) :
    lexed (sign :: text) = .source (String.singleton sign) :: lexed text := by
  have entries : ∀ sign ∈ ['-', '!'], ∀ pair ∈ pairs, pair.1 = sign → pair.2 ∈ ['=', '>'] := by decide
  refine Lexer.lexed_single paired ?_
  intro d head entry
  exact blunt d head (entries sign known (sign, d) entry rfl)

theorem Phrase.ne_print {p : Precedence} {x : Expr} {shape : Rest} (phrase : Phrase p x shape)
    (other : x ≠ .var "print") : shape ≠ letters "print".toList := by
  have marked (mark : String) (known : mark ∈ ["(", " ", "-", "!", "\""]) {inside : Rest}
      (member : Lexeme.source mark ∈ inside) : inside ≠ letters "print".toList := by
    have none : ∀ mark ∈ ["(", " ", "-", "!", "\""], Lexeme.source mark ∉ letters "print".toList := by decide
    rintro rfl
    exact none mark known member
  cases phrase with
  | int unsigned =>
    intro same
    obtain ⟨digits, some, -⟩ := decimal_unsigned unsigned
    rw [letters_injective same] at digits
    exact absurd (digits 'p' (by decide)) (by decide)
  | flag b => cases b <;> decide
  | str spelled => exact marked "\"" (by decide) (by simp [quotedLexemes])
  | @var name valid =>
    intro same
    exact other (congrArg Expr.var (String.toList_inj.mp (letters_injective same)))
  | group phrase => exact marked "(" (by decide) (by simp [enclosed])
  | between known leftBinds rightBinds left right => exact marked " " (by decide) (by simp)
  | negate binds inner => exact marked "-" (by decide) (by simp)
  | not binds inner => exact marked "!" (by decide) (by simp)
  | call binds callee ordinary each => exact marked "(" (by decide) (by simp [enclosed])
  | format each => exact marked "!" (by decide) (by simp [macroLexemes])

theorem lexed_grouped (required : Precedence) (x : Expr) (text : List Char) :
    lexed (grouped required x text) =
      if level x < required then enclosed (lexed text) else lexed text := by
  unfold grouped
  split
  · exact spaced.lexed_parenthesized text
  · rfl

theorem grouped_phrase {x : Expr} (phrase : Phrase (level x) x (lexed (spell x)))
    {required : Precedence} (most : required ≤ callLevel) :
    ∃ p, required ≤ p ∧ Phrase p x (lexed (grouped required x (spell x))) := by
  rw [lexed_grouped]
  split
  · exact ⟨callLevel, most, .group phrase⟩
  · next binds => exact ⟨level x, Int.not_lt.mp binds, phrase⟩

theorem called_phrase {f : Expr} (phrase : Phrase (level f) f (lexed (spell f))) :
    ∃ p, callLevel ≤ p ∧ Phrase p f (lexed (called f (spell f))) ∧
      lexed (called f (spell f)) ≠ letters "print".toList := by
  by_cases print : f = .var "print"
  · subst print
    have grouped : Phrase callLevel (.var "print") (enclosed (lexed (spell (.var "print")))) := .group phrase
    have written : lexed (called (.var "print") (spell (.var "print"))) =
        enclosed (lexed (spell (.var "print"))) := spaced.lexed_parenthesized _
    rw [written]
    exact ⟨callLevel, Int.le_refl _, grouped, by simp [enclosed, letters]; decide⟩
  · have ordinary : called f (spell f) = grouped callLevel f (spell f) := by
      unfold called
      split
      · next name =>
        have different : name ≠ "print" := fun same => print (congrArg Expr.var same)
        rw [if_neg different]
        rfl
      · rfl
    rw [ordinary]
    obtain ⟨p, binds, phrase⟩ := grouped_phrase phrase (Int.le_refl callLevel)
    exact ⟨p, binds, phrase, phrase.ne_print print⟩

theorem FormedExpr.phrase {x : Expr} (formed : FormedExpr x) : Phrase (level x) x (lexed (spell x)) := by
  have string (text : String) : Phrase callLevel (.literal (.str text)) (lexed (quoted text)) := by
    have contents := spaced.contents_escaped text.toList
    rw [String.ofList_toList] at contents
    rw [lexed, spaced.lexed_quoted]
    exact .str contents
  induction formed with
  | @int n unsigned =>
    show Phrase callLevel _ (lexed (Text.decimal n.toInt).toList)
    rw [lexed_decimal unsigned]
    exact .int unsigned
  | flag b =>
    show Phrase callLevel _ (lexed (Value.boolText b).toList)
    rw [lexed_word (by cases b <;> decide)]
    exact .flag b
  | str text => exact string text
  | @var name valid =>
    show Phrase callLevel _ (lexed name.toList)
    rw [lexed_word valid.wordChars]
    exact .var valid
  | @between op l r known left right ihLeft ihRight =>
    have small := op.level_lt
    have below : op.level + 1 ≤ callLevel := Int.le_trans (Int.add_one_le_of_lt small) (by decide)
    obtain ⟨p, leftBinds, leftPhrase⟩ := grouped_phrase ihLeft (Int.le_trans (Int.le_of_lt (Int.lt_succ _)) below)
    obtain ⟨q, rightBinds, rightPhrase⟩ := grouped_phrase ihRight below
    rw [level_tree, spell_tree]
    have written : lexed (op.spell l r (spell l) (spell r)) =
        lexed (grouped op.level l (spell l)) ++ .source " " :: .source op.symbol :: .source " " ::
          lexed (grouped (op.level + 1) r (spell r)) := by
      rw [Infix.spell, List.append_assoc, ← lexed_symbol known]
      exact Lexer.lexed_append paired (by rintro _ ⟨⟩; decide)
    rw [written]
    exact .between known leftBinds rightBinds leftPhrase rightPhrase
  | @negate x inner ih =>
    obtain ⟨p, binds, phrase⟩ := grouped_phrase ih (by decide : unaryLevel ≤ callLevel)
    show Phrase unaryLevel _ (lexed ('-' :: _))
    rw [lexed_sign (by decide) inner.blunt.grouped]
    exact .negate binds phrase
  | @not x inner ih =>
    obtain ⟨p, binds, phrase⟩ := grouped_phrase ih (by decide : unaryLevel ≤ callLevel)
    show Phrase unaryLevel _ (lexed ('!' :: _))
    rw [lexed_sign (by decide) inner.blunt.grouped]
    exact .not binds phrase
  | @call f args callee each ihCallee ih =>
    obtain ⟨p, binds, phrase, ordinary⟩ := called_phrase ihCallee
    show Phrase callLevel _ (lexed (called f (spell f) ++ parenthesized _))
    rw [lexed_append_parenthesized, lexed_spells]
    exact .call binds phrase ordinary ih
  | @format template args each ih =>
    have written : lexed (spell (.format template args)) = macroLexemes "format"
        ((.literal (.str template) :: args).map fun x => lexed (spell x)) := by
      rw [macroLexemes, ← lexed_spells]
      exact @lexed_bang "format" (by decide) _
    rw [written]
    refine @Phrase.format template args level _ fun x member => ?_
    rcases List.mem_cons.mp member with rfl | inside
    · exact string template
    · exact ih x inside

end ScriptKernel.MiniRust
