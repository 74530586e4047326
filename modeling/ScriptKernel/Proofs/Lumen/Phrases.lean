import Mathlib
import ScriptKernel.Proofs.Lumen.Rendering
import ScriptKernel.Proofs.Number.Texts
import ScriptKernel.Proofs.Parse.Words

/-!
Expressions as runs of lexemes. A phrase relates an expression to the lexemes
it is written with and to the level at which they bind; parentheses bind like
a call. Every well-formed expression is rendered as a phrase of it.
-/

namespace ScriptKernel

namespace Lumen

open Written

theorem Infix.operands_le (op : Infix) : op.left ≤ callLevel ∧ op.right ≤ callLevel := by
  cases op with
  | compare op => exact (by decide : comparisonLevel + 1 ≤ callLevel ∧ comparisonLevel + 1 ≤ callLevel)
  | arith op =>
    cases op with
    | other symbol => exact (by decide : factorLevel ≤ callLevel ∧ factorLevel + 1 ≤ callLevel)
    | _ => decide
  | _ => decide

abbrev IsName (name : String) : Prop :=
  Written.IsName reserved name

def Infix.Known : Infix → Prop
  | compare (.other _) | arith (.other _) => False
  | _ => True

inductive FormedExpr : Expr → Prop
  | number {x : Float} (plain : Decimal.NumberText (Decimal.render x).toList)
      (read : Decimal.read? (Decimal.render x) = some x) : FormedExpr (.literal (.number x))
  | bool (b : Bool) : FormedExpr (.literal (.bool b))
  | none : FormedExpr (.literal .none)
  | string (text : String) : FormedExpr (.literal (.string text))
  | var {name : String} (valid : IsName name) : FormedExpr (.var name)
  | between {op : Infix} {l r : Expr} (known : op.Known) (ordinary : op ≠ .pipe)
      (left : FormedExpr l) (right : FormedExpr r) : FormedExpr (op.tree l r)
  | pipe {x f : Expr} {args : List Expr} (left : FormedExpr x) (right : FormedExpr (.call f args)) :
      FormedExpr (.pipe x f args)
  | not {x : Expr} (inner : FormedExpr x) : FormedExpr (.not x)
  | negate {x : Expr} (inner : FormedExpr x) : FormedExpr (.negate x)
  | call {f : Expr} {args : List Expr} (callee : FormedExpr f) (each : ∀ x ∈ args, FormedExpr x) :
      FormedExpr (.call f args)
  | hostCall {selector : String} {keys : List Key} {args : List Expr}
      (parsed : Selector.parse selector = .ok keys) (each : ∀ x ∈ args, FormedExpr x) :
      FormedExpr (.hostCall selector keys args)
  | array {items : List Expr} (each : ∀ x ∈ items, FormedExpr x) : FormedExpr (.array items)
  | index {x position : Expr} (left : FormedExpr x) (inner : FormedExpr position) :
      FormedExpr (.index x position)

theorem Infix.tree_ne_var (op : Infix) (l r : Expr) (name : String) : op.tree l r ≠ .var name := by
  cases op with
  | pipe => cases r <;> nofun
  | _ => nofun

theorem FormedExpr.isName {name : String} (formed : FormedExpr (.var name)) : IsName name := by
  generalize same : Expr.var name = x at formed
  cases formed with
  | var valid =>
    cases same
    exact valid
  | between known ordinary left right => exact absurd same.symm (Infix.tree_ne_var _ _ _ name)
  | _ => cases same

def Infix.lexemes : Infix → Rest
  | or => letters "or".toList
  | and => letters "and".toList
  | op => [.source op.symbol]

/-- The lexemes with which an expression may be written, and how tightly they
bind. -/
inductive Phrase : Precedence → Expr → Rest → Prop
  | number {text : List Char} {x : Float} (plain : Decimal.NumberText text)
      (read : Decimal.read? (String.ofList text) = some x) :
      Phrase callLevel (.literal (.number x)) (letters text)
  | bool (b : Bool) : Phrase callLevel (.literal (.bool b)) (letters (Value.boolText b).toList)
  | none : Phrase callLevel (.literal .none) (letters "none".toList)
  | string {contents : Rest} {text : String} (spelled : Parser.Contents "\"" contents text) :
      Phrase callLevel (.literal (.string text)) (quotedLexemes contents)
  | var {name : String} (valid : IsName name) : Phrase callLevel (.var name) (letters name.toList)
  | group {p : Precedence} {x : Expr} {inner : Rest} (phrase : Phrase p x inner) :
      Phrase callLevel x (enclosed inner)
  | between {op : Infix} {l r : Expr} {p q : Precedence} {left right : Rest} (known : op.Known)
      (leftBinds : op.left ≤ p) (rightBinds : op.right ≤ q) (leftPhrase : Phrase p l left)
      (rightPhrase : Phrase q r right) :
      Phrase op.level (op.tree l r) (left ++ .source " " :: (op.lexemes ++ .source " " :: right))
  | not {x : Expr} {p : Precedence} {inner : Rest} (binds : comparisonLevel ≤ p)
      (phrase : Phrase p x inner) :
      Phrase comparisonLevel (.not x) (letters "not".toList ++ .source " " :: inner)
  | negate {x : Expr} {p : Precedence} {inner : Rest} (binds : unaryLevel ≤ p)
      (phrase : Phrase p x inner) : Phrase unaryLevel (.negate x) (.source "-" :: inner)
  | call {f : Expr} {p : Precedence} {callee : Rest} {args : List Expr}
      {levels : Expr → Precedence} {parts : Expr → Rest} (binds : callLevel ≤ p)
      (phrase : Phrase p f callee) (ordinary : ∀ word ∈ outputWords, callee ≠ letters word.toList)
      (each : ∀ x ∈ args, Phrase (levels x) x (parts x)) :
      Phrase callLevel (.call f args) (callee ++ enclosed (listed (args.map parts)))
  | hostCall {selector : String} {keys : List Key} {contents : Rest} {args : List Expr}
      {levels : Expr → Precedence} {parts : Expr → Rest}
      (parsed : Selector.parse selector = .ok keys)
      (spelled : Parser.Contents "\"" contents selector)
      (each : ∀ x ∈ args, Phrase (levels x) x (parts x)) :
      Phrase callLevel (.hostCall selector keys args)
        (letters "extern".toList ++ enclosed (listed (quotedLexemes contents :: args.map parts)))
  | array {items : List Expr} {levels : Expr → Precedence} {parts : Expr → Rest}
      (each : ∀ x ∈ items, Phrase (levels x) x (parts x)) :
      Phrase callLevel (.array items)
        (.source "[" :: (listed (items.map parts) ++ [.source "]"]))
  | index {x position : Expr} {p q : Precedence} {left inner : Rest} (binds : callLevel ≤ p)
      (leftPhrase : Phrase p x left) (innerPhrase : Phrase q position inner) :
      Phrase callLevel (.index x position) (left ++ .source "[" :: (inner ++ [.source "]"]))

def pairs : List (Char × Char) :=
  [('=', '='), ('!', '='), ('<', '='), ('>', '='), ('.', '.'), ('|', '>'), ('*', '*'), ('/', '/')]

theorem paired : table.Paired pairs := by
  unfold Table.Paired
  cbv

def lexed (text : List Char) : Rest :=
  Lexer.lexed table text

@[simp] theorem lexed_nil : lexed [] = [] :=
  Lexer.lexed_nil table

theorem lexed_char {c : Char} (starts : c ∉ pairs.map Prod.fst) (rest : List Char) :
    lexed (c :: rest) = .source (String.singleton c) :: lexed rest :=
  Lexer.lexed_char paired starts rest

theorem lexed_append {first second : List Char}
    (apart : ∀ d ∈ second.head?, d ∉ pairs.map Prod.snd) :
    lexed (first ++ second) = lexed first ++ lexed second :=
  Lexer.lexed_append paired apart

theorem spaced : Spaced table pairs where
  paired := paired
  words := by decide
  starts := by decide
  ends := by decide

theorem starts_of_isWordChar {c : Char} (word : Text.isWordChar c) : c ∉ pairs.map Prod.fst :=
  spaced.starts_of_isWordChar word

theorem lexed_letters {text : List Char} (starts : ∀ c ∈ text, c ∉ pairs.map Prod.fst)
    (rest : List Char) : lexed (text ++ rest) = letters text ++ lexed rest :=
  spaced.lexed_letters starts rest

theorem lexed_word {text : List Char} (word : ∀ c ∈ text, Text.isWordChar c) :
    lexed text = letters text :=
  spaced.lexed_word word

theorem lexed_number {text : List Char} (plain : Decimal.NumberText text) :
    lexed text = letters text := by
  have starts {c : Char} (digit : c.isDigit) : c ∉ pairs.map Prod.fst := by
    intro entry
    have none : ∀ d ∈ pairs.map Prod.fst, d.isDigit = false := by decide
    rw [none c entry] at digit
    cases digit
  have cut {digits : List Char} (all : ∀ c ∈ digits, c.isDigit) (rest : List Char) :
      lexed (digits ++ rest) = letters digits ++ lexed rest :=
    lexed_letters (fun c member => starts (all c member)) rest
  cases plain with
  | whole _ all => simpa using cut all []
  | @fraction before behind _ all more allMore =>
    have alone : ∀ d ∈ behind.head?, ('.', d) ∉ pairs := by
      intro d head entry
      have notPoint : ∀ pair ∈ pairs, pair.1 = '.' → pair.2.isDigit = false := by decide
      have digit := allMore d (List.mem_of_mem_head? head)
      rw [notPoint _ entry rfl] at digit
      cases digit
    have behindCut : lexed behind = letters behind := by simpa using cut allMore []
    rw [cut all, lexed, Lexer.lexed_single paired alone]
    change letters before ++ Lexeme.source "." :: lexed behind = _
    rw [behindCut, letters, letters, letters, List.map_append, List.map_cons]
    rfl

theorem lexed_one {c : Char} (alone : (c, ' ') ∉ pairs) (rest : List Char) :
    lexed (' ' :: c :: ' ' :: rest) =
      .source " " :: .source (String.singleton c) :: .source " " :: lexed rest := by
  rw [lexed_char (by decide), lexed, Lexer.lexed_single paired (by rintro _ ⟨⟩; exact alone)]
  change _ :: _ :: lexed (' ' :: rest) = _
  rw [lexed_char (by decide)]
  rfl

theorem lexed_two {c d : Char} (entry : (c, d) ∈ pairs) (rest : List Char) :
    lexed (' ' :: c :: d :: ' ' :: rest) =
      .source " " :: .source (String.ofList [c, d]) :: .source " " :: lexed rest := by
  rw [lexed_char (by decide), lexed, Lexer.lexed_pair paired entry]
  change _ :: _ :: lexed (' ' :: rest) = _
  rw [lexed_char (by decide)]
  rfl

theorem lexed_symbol {op : Infix} (known : op.Known) (rest : List Char) :
    lexed (' ' :: (op.symbol.toList ++ ' ' :: rest)) =
      .source " " :: (op.lexemes ++ .source " " :: lexed rest) := by
  have word {text : List Char} (word : ∀ c ∈ text, Text.isWordChar c) :
      lexed (' ' :: (text ++ ' ' :: rest)) = .source " " :: (letters text ++ .source " " :: lexed rest) := by
    rw [lexed_char (by decide), lexed_letters (fun c member => starts_of_isWordChar (word c member)),
      lexed_char (by decide)]
    rfl
  cases op with
  | pipe => exact lexed_two (by decide) rest
  | range => exact lexed_two (by decide) rest
  | or => exact word (by decide)
  | and => exact word (by decide)
  | compare op =>
    cases op with
    | lt | gt => exact lexed_one (by decide) rest
    | other symbol => exact known.elim
    | _ => exact lexed_two (by decide) rest
  | arith op =>
    cases op with
    | floorDiv | pow => exact lexed_two (by decide) rest
    | other symbol => exact known.elim
    | _ => exact lexed_one (by decide) rest

theorem lexed_commas (texts : List (List Char)) :
    lexed (commas texts) = listed (texts.map lexed) :=
  spaced.lexed_commas texts

theorem lexed_parenthesized (text : List Char) :
    lexed (parenthesized text) = enclosed (lexed text) :=
  spaced.lexed_parenthesized text

theorem lexed_append_parenthesized (first text : List Char) :
    lexed (first ++ parenthesized text) = lexed first ++ enclosed (lexed text) :=
  spaced.lexed_append_parenthesized first text

theorem contents_escaped (text : List Char) :
    Parser.Contents "\"" (lexed (escaped text)) (String.ofList text) :=
  spaced.contents_escaped text

theorem lexed_quoted (text : String) :
    lexed (quoted text) = quotedLexemes (lexed (escaped text.toList)) :=
  spaced.lexed_quoted text

theorem phrase_ne_word {p : Precedence} {x : Expr} {shape : Rest} (phrase : Phrase p x shape)
    (other : ∀ name, x ≠ .var name) : ∀ word ∈ outputWords, shape ≠ letters word.toList := by
  have marked (mark : String) (known : mark ∈ ["(", "[", " ", "-", "\""]) {inside : Rest}
      (member : Lexeme.source mark ∈ inside) : ∀ word ∈ outputWords, inside ≠ letters word.toList := by
    have none : ∀ word ∈ outputWords, ∀ mark ∈ ["(", "[", " ", "-", "\""],
        Lexeme.source mark ∉ letters word.toList := by decide
    rintro word output rfl
    exact none word output mark known member
  cases phrase with
  | @number text x plain read =>
    intro word output same
    have noDigit : ∀ word ∈ outputWords, ∀ c ∈ word.toList, c.isDigit = false := by decide
    have digit : ∃ c ∈ text, c.isDigit = true := by
      cases plain with
      | whole some all =>
        obtain ⟨c, rest, rfl⟩ := List.exists_cons_of_ne_nil some
        exact ⟨c, List.mem_cons_self, all c List.mem_cons_self⟩
      | fraction some all more allMore =>
        obtain ⟨c, rest, rfl⟩ := List.exists_cons_of_ne_nil some
        exact ⟨c, by simp, all c List.mem_cons_self⟩
    obtain ⟨c, member, isDigit⟩ := digit
    rw [letters_injective same] at member
    rw [noDigit word output c member] at isDigit
    cases isDigit
  | bool b => cases b <;> decide
  | none => decide
  | string spelled => exact marked "\"" (by decide) (by simp [quotedLexemes])
  | var valid => exact absurd rfl (other _)
  | group phrase => exact marked "(" (by decide) (by simp [enclosed])
  | between known leftBinds rightBinds left right =>
    exact marked " " (by decide) (by simp)
  | not binds inner => exact marked " " (by decide) (by simp)
  | negate binds inner => exact marked "-" (by decide) (by simp)
  | call binds callee ordinary each => exact marked "(" (by decide) (by simp [enclosed])
  | hostCall parsed spelled each => exact marked "(" (by decide) (by simp [enclosed])
  | array each => exact marked "[" (by decide) (by simp)
  | index binds left inner => exact marked "[" (by decide) (by simp)

theorem lexed_grouped (required : Precedence) (x : Expr) (text : List Char) :
    lexed (grouped required x text) =
      if level x < required then enclosed (lexed text) else lexed text := by
  unfold grouped
  split
  · exact lexed_parenthesized text
  · rfl

theorem grouped_phrase {x : Expr} (phrase : Phrase (level x) x (lexed (spell x)))
    {required : Precedence} (most : required ≤ callLevel) :
    ∃ p, required ≤ p ∧ Phrase p x (lexed (grouped required x (spell x))) := by
  rw [lexed_grouped]
  split
  · exact ⟨callLevel, most, .group phrase⟩
  · next binds => exact ⟨level x, not_lt.mp binds, phrase⟩

theorem lexed_name {name : String} (valid : IsName name) :
    lexed name.toList = letters name.toList :=
  lexed_word valid.wordChars

theorem called_phrase {f : Expr} (formed : FormedExpr f)
    (phrase : Phrase (level f) f (lexed (spell f))) :
    ∃ p, callLevel ≤ p ∧ Phrase p f (lexed (called f (spell f))) ∧
      ∀ word ∈ outputWords, lexed (called f (spell f)) ≠ letters word.toList := by
  by_cases named : ∃ name, f = .var name
  · obtain ⟨name, rfl⟩ := named
    refine ⟨callLevel, le_rfl, ?_⟩
    by_cases output : name ∈ outputWords
    · have wrapped : called (.var name) (spell (.var name)) = parenthesized (spell (.var name)) :=
        if_pos output
      rw [wrapped, lexed_parenthesized]
      refine ⟨.group phrase, ?_⟩
      have noParen : ∀ word ∈ outputWords, Lexeme.source "(" ∉ letters word.toList := by decide
      intro word member same
      exact noParen word member (same ▸ List.mem_cons_self)
    · have plain : called (.var name) (spell (.var name)) = spell (.var name) := if_neg output
      rw [plain]
      refine ⟨phrase, ?_⟩
      intro word member same
      change lexed name.toList = _ at same
      rw [lexed_name formed.isName] at same
      rw [String.toList_inj.mp (letters_injective same)] at output
      exact output member
  · have other : ∀ name, f ≠ .var name := fun name same => named ⟨name, same⟩
    have ordinary : called f (spell f) = grouped callLevel f (spell f) := by
      unfold called
      split
      · next name => exact absurd rfl (other name)
      · rfl
    obtain ⟨p, binds, grouped⟩ := grouped_phrase phrase le_rfl
    rw [ordinary]
    exact ⟨p, binds, grouped, phrase_ne_word grouped other⟩

theorem lexed_spells (args : List Expr) :
    lexed (commas (spells args)) = listed (args.map fun x => lexed (spell x)) := by
  rw [lexed_commas, spells_eq_map, List.map_map]
  rfl

theorem between_phrase {op : Infix} {l r : Expr} (known : op.Known)
    (left : Phrase (level l) l (lexed (spell l))) (right : Phrase (level r) r (lexed (spell r))) :
    Phrase op.level (op.tree l r) (lexed (op.spell l r (spell l) (spell r))) := by
  obtain ⟨p, leftBinds, leftPhrase⟩ := grouped_phrase left op.operands_le.1
  obtain ⟨q, rightBinds, rightPhrase⟩ := grouped_phrase right op.operands_le.2
  have blank : ' ' ∉ pairs.map Prod.snd := by decide
  rw [Infix.spell, List.append_assoc, List.cons_append, lexed_append (by rintro _ ⟨⟩; exact blank),
    lexed_symbol known]
  exact .between known leftBinds rightBinds leftPhrase rightPhrase

theorem FormedExpr.phrase {x : Expr} (formed : FormedExpr x) :
    Phrase (level x) x (lexed (spell x)) := by
  induction formed with
  | @number x plain read =>
    change Phrase callLevel _ (lexed (Decimal.render x).toList)
    rw [lexed_number plain]
    exact .number plain (by rwa [String.ofList_toList])
  | bool b =>
    have spelled : lexed (Value.boolText b).toList = letters (Value.boolText b).toList :=
      lexed_word (by cases b <;> decide)
    change Phrase callLevel _ (lexed (Value.boolText b).toList)
    rw [spelled]
    exact .bool b
  | none =>
    have spelled : lexed "none".toList = letters "none".toList := lexed_word (by decide)
    change Phrase callLevel _ (lexed "none".toList)
    rw [spelled]
    exact .none
  | string text =>
    change Phrase callLevel _ (lexed (quoted text))
    rw [lexed_quoted]
    have contents := contents_escaped text.toList
    rw [String.ofList_toList] at contents
    exact .string contents
  | @var name valid =>
    change Phrase callLevel _ (lexed name.toList)
    rw [lexed_name valid]
    exact .var valid
  | @between op l r known ordinary left right ihLeft ihRight =>
    rw [level_tree, spell_tree fun pipe => absurd pipe ordinary]
    exact between_phrase known ihLeft ihRight
  | @pipe x f args left right ihLeft ihRight =>
    have known : Infix.pipe.Known := trivial
    exact between_phrase known ihLeft ihRight
  | @not x inner ih =>
    obtain ⟨p, binds, phrase⟩ := grouped_phrase ih (by decide : comparisonLevel ≤ callLevel)
    change Phrase comparisonLevel _ (lexed ("not".toList ++ ' ' :: _))
    rw [lexed_letters (by decide), lexed_char (by decide)]
    exact .not binds phrase
  | @negate x inner ih =>
    obtain ⟨p, binds, phrase⟩ := grouped_phrase ih (by decide : unaryLevel ≤ callLevel)
    change Phrase unaryLevel _ (lexed ('-' :: _))
    rw [lexed_char (by decide)]
    exact .negate binds phrase
  | @call f args callee each ihCallee ihArgs =>
    obtain ⟨p, binds, phrase, ordinary⟩ := called_phrase callee ihCallee
    change Phrase callLevel _ (lexed (called f (spell f) ++ parenthesized _))
    rw [lexed_append_parenthesized, lexed_spells]
    exact .call binds phrase ordinary ihArgs
  | @hostCall selector keys args parsed each ih =>
    have contents := contents_escaped selector.toList
    rw [String.ofList_toList] at contents
    have keyword : lexed "extern".toList = letters "extern".toList := lexed_word (by decide)
    change Phrase callLevel _ (lexed ("extern".toList ++ parenthesized _))
    rw [lexed_append_parenthesized, keyword, lexed_commas, List.map_cons, lexed_quoted, spells_eq_map,
      List.map_map]
    exact .hostCall parsed contents ih
  | @array items each ih =>
    have close : ']' ∉ pairs.map Prod.snd := by decide
    change Phrase callLevel _ (lexed ('[' :: (_ ++ [']'])))
    rw [lexed_char (by decide), lexed_append (by rintro _ ⟨⟩; exact close), lexed_spells,
      lexed_char (by decide), lexed_nil]
    exact .array ih
  | @index x position left inner ihLeft ihInner =>
    obtain ⟨p, binds, phrase⟩ := grouped_phrase ihLeft (le_refl callLevel)
    have opening : '[' ∉ pairs.map Prod.snd := by decide
    have close : ']' ∉ pairs.map Prod.snd := by decide
    change Phrase callLevel _ (lexed (grouped callLevel x (spell x) ++ '[' :: spell position ++ [']']))
    rw [List.append_assoc, List.cons_append, lexed_append (by rintro _ ⟨⟩; exact opening),
      lexed_char (by decide), lexed_append (by rintro _ ⟨⟩; exact close), lexed_char (by decide),
      lexed_nil]
    exact .index binds phrase ihInner

end Lumen

end ScriptKernel
