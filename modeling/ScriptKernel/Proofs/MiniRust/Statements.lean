import ScriptKernel.Proofs.MiniRust.Expressions

/-!
Statements of one line. How a statement is told by its first words, what a
rendered statement looks like, and that it is read as the statement up to the
semicolon that ends it.
-/

namespace ScriptKernel.MiniRust

open Written
open Lumen (parenthesized commas quoted)
open ScriptKernel.Parser (Reads)

variable {ctx : Context}

inductive FormedStmt : Stmt → Prop
  | expr {x : Expr} (formed : FormedExpr x) : FormedStmt (.expr x)
  | print {x : Expr} (formed : FormedExpr x) : FormedStmt (output "print_native" x)
  | write {x : Expr} (formed : FormedExpr x) (filled : ∀ text, x = .literal (.str text) → text = "") :
      FormedStmt (output "write_native" x)
  | define {name : String} {x : Expr} (valid : IsName name) (formed : FormedExpr x) :
      FormedStmt (.define name x)
  | assign {name : String} {x : Expr} (valid : IsName name) (formed : FormedExpr x) :
      FormedStmt (.assign name x false)
  | block {body : List Stmt} (each : ∀ s ∈ body, FormedStmt s) : FormedStmt (.block body)
  | cond {test : Expr} {yes no : List Stmt} (formed : FormedExpr test) (yesFormed : ∀ s ∈ yes, FormedStmt s)
      (noFormed : ∀ s ∈ no, FormedStmt s) : FormedStmt (.cond test yes no)
  | whileLoop {test : Expr} {body : List Stmt} (formed : FormedExpr test) (each : ∀ s ∈ body, FormedStmt s) :
      FormedStmt (.whileLoop test body false)
  | endless {body : List Stmt} (each : ∀ s ∈ body, FormedStmt s) : FormedStmt (.endless body)
  | breakLoop : FormedStmt .breakLoop
  | continueLoop : FormedStmt .continueLoop
  | returnNone : FormedStmt (.returnWith none)
  | returnSome {x : Expr} (formed : FormedExpr x) : FormedStmt (.returnWith (some x))
  | declare {name : String} {params : List String} {body : List Stmt} (valid : IsName name)
      (names : ∀ param ∈ params, IsName param) (distinct : params.Nodup) (each : ∀ s ∈ body, FormedStmt s) :
      FormedStmt (.declare 0 name params body)

def statementWords : List String :=
  ["let", "mut", "fn", "if", "else", "while", "loop", "break", "continue", "return"]

theorem Phrase.word_notMem {p : Precedence} {x : Expr} {shape : Rest} (phrase : Phrase p x shape)
    {s : Rest} (clear : Clear s) : Rest.word (shape ++ s) ∉ statementWords := by
  have symbol {text : String} (known : text ∈ symbols) (t : Rest) :
      Rest.word (.source text :: t) ∉ statementWords := by
    rw [word_symbol known]
    decide
  have keyword {text : List Char} (word : ∀ c ∈ text, Text.isWordChar c)
      (other : String.ofList text ∉ statementWords) {t : Rest} (clear : Clear t) :
      Rest.word (letters text ++ t) ∉ statementWords := by
    rwa [word_letters word clear]
  induction phrase generalizing s with
  | @int n unsigned =>
    obtain ⟨digits, nonempty, -⟩ := decimal_unsigned unsigned
    refine keyword (fun c member => isWordChar_of_isDigit (digits c member)) ?_ clear
    have letter : ∀ word ∈ statementWords, ∀ c ∈ word.toList, c.isDigit = false := by decide
    obtain ⟨c, rest, chars⟩ := List.exists_cons_of_ne_nil nonempty
    have first : c ∈ (Text.decimal n.toInt).toList := by rw [chars]; exact List.mem_cons_self
    rw [String.ofList_toList]
    intro member
    have digit := digits c first
    rw [letter _ member c first] at digit
    cases digit
  | flag b => cases b <;> exact keyword (by decide) (by decide) clear
  | str spelled => exact symbol (by decide) _
  | @var name valid =>
    refine keyword valid.wordChars ?_ clear
    have words : ∀ word ∈ statementWords, word ∈ reserved := by decide
    rw [String.ofList_toList]
    exact fun member => valid.free (words name member)
  | group phrase ih => exact symbol (by decide) _
  | between known leftBinds rightBinds left right ihLeft ihRight =>
    rw [List.append_assoc, List.cons_append]
    exact ihLeft (clear_symbol (by decide) _)
  | negate binds inner ih => exact symbol (by decide) _
  | not binds inner ih => exact symbol (by decide) _
  | call binds callee ordinary each ihCallee ih =>
    rw [List.append_assoc]
    exact ihCallee (clear_symbol (by decide) _)
  | format each ih =>
    rw [macroLexemes, List.append_assoc]
    exact keyword (by decide) (by decide) (clear_symbol (by decide) _)

def prints (ctx : Context) (rest : Rest) : Bool :=
  isBang "println" rest || isBang "print" rest || printRule.applies ctx rest

theorem prints_of_word {s : Rest} (other : s.word ≠ "println" ∧ s.word ≠ "print") : prints ctx s = false := by
  simp [prints, isBang, printRule, Rest.isKeyword, other]

theorem prints_letters (plain : Plain ctx) {text : List Char} (word : ∀ c ∈ text, Text.isWordChar c)
    {s : Rest} (clear : Apart s)
    (unopened : letters text = letters "print".toList → Rest.isAt "(" (skipSpace s) = false) :
    prints ctx (letters text ++ s) = false := by
  have seen := word_letters word clear.toClear
  have behind := afterWord_letters word clear.toClear
  by_cases same : text = "print".toList
  · have closed := unopened (by rw [same])
    simp [prints, isBang, printRule, behind, clear.noMark, plain.skipSpace, closed]
  · have other : String.ofList text ≠ "print" := by
      intro equal
      exact same (by rw [← equal, String.toList_ofList])
    have differs : (String.ofList text == "print") = false := by simpa using other
    simp only [prints, isBang, printRule, Rest.isKeyword, seen, behind, clear.noMark, differs]
    simp

theorem Infix.symbol_ne_paren {op : Infix} (known : op.Known) : op.symbol ≠ "(" := by
  cases op with
  | or | and => decide
  | compare op =>
    cases op with
    | other symbol => exact absurd rfl (known symbol)
    | _ => decide
  | arith op =>
    cases op with
    | floorDiv | pow | other symbol => simp [Known] at known
    | _ => decide

theorem Phrase.prints (plain : Plain ctx) {p : Precedence} {x : Expr} {shape : Rest} (phrase : Phrase p x shape)
    {s : Rest} (clear : Apart s)
    (unopened : shape = letters "print".toList → Rest.isAt "(" (skipSpace s) = false) :
    prints ctx (shape ++ s) = false := by
  have symbol {text : String} (known : text ∈ symbols) (t : Rest) :
      MiniRust.prints ctx (.source text :: t) = false := by
    refine prints_of_word ?_
    rw [word_symbol known]
    decide
  induction phrase generalizing s with
  | int unsigned =>
    have digits := (decimal_unsigned unsigned).1
    exact prints_letters plain (fun c member => isWordChar_of_isDigit (digits c member)) clear unopened
  | flag b => cases b <;> exact prints_letters plain (by decide) clear unopened
  | str spelled => exact symbol (by decide) _
  | var valid => exact prints_letters plain valid.wordChars clear unopened
  | group phrase ih => exact symbol (by decide) _
  | between known leftBinds rightBinds left right ihLeft ihRight =>
    rw [List.append_assoc, List.cons_append]
    refine ihLeft (apart_symbol (by decide) (by decide) _) fun _ => ?_
    rw [skipSpace_blank, List.cons_append, skipSpace_symbol (Infix.symbol_mem known)]
    simpa using Infix.symbol_ne_paren known
  | negate binds inner ih => exact symbol (by decide) _
  | not binds inner ih => exact symbol (by decide) _
  | call binds callee ordinary each ihCallee ih =>
    rw [List.append_assoc]
    exact ihCallee (apart_symbol (by decide) (by decide) _) fun same => absurd same ordinary
  | format each ih =>
    refine prints_of_word ?_
    rw [macroLexemes, List.append_assoc, List.cons_append, word_letters (by decide) (clear_symbol (by decide) _)]
    decide

theorem find_keyword (s : Rest) :
    (s.word = "let" → grammar.statements.find? (·.applies ctx s) = some letRule) ∧
    (s.word = "fn" → grammar.statements.find? (·.applies ctx s) = some fnRule) ∧
    (s.word = "if" → grammar.statements.find? (·.applies ctx s) = some ifRule) ∧
    (s.word = "while" → grammar.statements.find? (·.applies ctx s) = some whileRule) ∧
    (s.word = "loop" → grammar.statements.find? (·.applies ctx s) = some loopRule) ∧
    (s.word = "break" → grammar.statements.find? (·.applies ctx s) = some (wordRule "break" .breakLoop)) ∧
    (s.word = "continue" →
      grammar.statements.find? (·.applies ctx s) = some (wordRule "continue" .continueLoop)) ∧
    (s.word = "return" → grammar.statements.find? (·.applies ctx s) = some returnRule) := by
  refine ⟨?_, ?_, ?_, ?_, ?_, ?_, ?_, ?_⟩
  all_goals
    intro seen
    simp [grammar, letRule, fnRule, ifRule, whileRule, loopRule, wordRule, returnRule, Rest.isKeyword, seen]

theorem find_print (plain : Plain ctx) (s : Rest) :
    grammar.statements.find? (·.applies ctx (letters "print".toList ++ .source "!" :: s)) =
        some (printBangRule "print" "write_native") ∧
      grammar.statements.find? (·.applies ctx (letters "print".toList ++ .source "(" :: s)) = some printRule := by
  have seen (t : Rest) (clear : Clear t) : Rest.word (letters "print".toList ++ t) = "print" :=
    word_letters (by decide) clear
  have behind (t : Rest) (clear : Clear t) : Rest.afterWord (letters "print".toList ++ t) = t :=
    afterWord_letters (by decide) clear
  have mark : Clear (.source "!" :: s) := clear_symbol (by decide) s
  have paren : Clear (.source "(" :: s) := clear_symbol (by decide) s
  have solid : skipSpace (.source "(" :: s) = .source "(" :: s := skipSpace_symbol (by decide) s
  constructor
  · simp only [grammar, List.find?_cons, letRule, fnRule, ifRule, whileRule, loopRule, wordRule, returnRule,
      printBangRule, isBang, Rest.isKeyword, seen _ mark, behind _ mark]
    rfl
  · simp only [grammar, List.find?_cons, letRule, fnRule, ifRule, whileRule, loopRule, wordRule, returnRule,
      printBangRule, printRule, isBang, Rest.isKeyword, seen _ paren, behind _ paren, plain.skipSpace, solid]
    rfl

theorem find_block (s : Rest) : grammar.statements.find? (·.applies ctx (.source "\x7b" :: s)) = some blockRule := by
  have seen : Rest.word (.source "\x7b" :: s) = "" := word_symbol (by decide) s
  simp [grammar, letRule, fnRule, ifRule, whileRule, loopRule, wordRule, returnRule, printBangRule, printRule,
    blockRule, isBang, Rest.isKeyword, seen]

theorem find_assign (plain : Plain ctx) {p : Precedence} {x : Expr} {shape : Rest} (phrase : Phrase p x shape)
    {s : Rest} (clear : Apart s)
    (unopened : shape = letters "print".toList → Rest.isAt "(" (skipSpace s) = false) :
    grammar.statements.find? (·.applies ctx (shape ++ s)) = some assignRule := by
  have noWord := phrase.word_notMem clear.toClear
  have noPrint := phrase.prints plain clear unopened
  have noBrace := phrase.noBrace s
  have opens := phrase.opens.append s
  simp only [statementWords, List.mem_cons, List.not_mem_nil, or_false, not_or] at noWord
  simp only [prints, Bool.or_eq_false_iff] at noPrint
  simp [grammar, letRule, fnRule, ifRule, whileRule, loopRule, wordRule, returnRule, printBangRule, blockRule,
    assignRule, Rest.isKeyword, noWord, noPrint, noBrace, opens.atEnd ctx, opens.synthetic_peek ctx]

theorem lexed_keyword {word : List Char} (wordlike : ∀ c ∈ word, Text.isWordChar c) (rest : List Char) :
    lexed (word ++ ' ' :: rest) = letters word ++ .source " " :: lexed rest := by
  rw [lexed_letters wordlike, lexed_char (by decide)]
  rfl

theorem lexed_ended (text : List Char) : lexed (text ++ [';']) = lexed text ++ [.source ";"] := by
  rw [lexed_before (by decide), lexed_nil]
  rfl

theorem lexed_assigned {name : String} (valid : IsName name) (text : List Char) :
    lexed (name.toList ++ " = ".toList ++ text) =
      letters name.toList ++ .source " " :: .source "=" :: .source " " :: lexed text := by
  have sign : lexed ('=' :: ' ' :: text) = .source "=" :: .source " " :: lexed text := by
    rw [lexed, Lexer.lexed_single paired (by rintro _ ⟨⟩; decide)]
    show _ :: lexed (' ' :: text) = _
    rw [lexed_char (by decide)]
    rfl
  rw [List.append_assoc]
  show lexed (name.toList ++ ' ' :: '=' :: ' ' :: text) = _
  rw [lexed_keyword valid.wordChars, sign]

theorem lexed_params {params : List String} (names : ∀ param ∈ params, IsName param) :
    lexed (commas (params.map String.toList)) = listed (params.map fun param => letters param.toList) := by
  have each : (params.map String.toList).map (Lexer.lexed table) =
      params.map fun param => letters param.toList := by
    rw [List.map_map]
    exact List.map_congr_left fun param member => lexed_word (names param member).wordChars
  rw [lexed, spaced.lexed_commas, each]

theorem reads_rule (plain : Plain ctx) {rule : Statement} {fuel depth : Nat} {s t : Rest} {x : Stmt}
    (found : grammar.statements.find? (·.applies ctx s) = some rule)
    (parsed : Reads (rule.parse (grammar.nestedAt fuel (depth + 1))) ctx s x t) :
    Reads ((grammar.nestedAt (fuel + 1) depth).statement) ctx s x t := by
  intro rest same
  rw [grammar.nestedAt_statement plain.unbounded]
  exact Grammar.reads_statement plain.placeless found parsed rest same

theorem FormedExpr.reads_behind (plain : Plain ctx) {x : Expr} (formed : FormedExpr x) {fuel depth : Nat}
    {s : Rest} (fueled : (lexed (spell x)).length < fuel) :
    Reads ((grammar.nestedAt fuel depth).expr lowest) ctx
      (.source " " :: (lexed (spell x) ++ .source ";" :: s)) x (.source ";" :: s) :=
  formed.reads plain fueled (by decide) (formed.skipSpace_spell _)

theorem reads_expression (plain : Plain ctx) {x : Expr} (formed : FormedExpr x) {fuel depth : Nat}
    {s : Rest} (fueled : (lexed (spell x)).length < fuel) :
    Reads (assignRule.parse (grammar.nestedAt fuel depth)) ctx (lexed (spell x) ++ .source ";" :: s)
      (.expr x) (.source ";" :: s) := by
  have unassigned (rest : Rest) : assignment? rest.bare = assignment? rest := by cases rest <;> rfl
  refine Reads.location fun place => ?_
  refine (formed.reads plain fueled (by decide) (formed.skipSpace_spell _)).bind ?_
  refine (reads_skipSpace_symbol plain (by decide) s).bind ?_
  refine (Reads.look (f := fun _ rest => assignment? rest) unassigned).bind ?_
  exact Reads.pure _ _

theorem reads_assignment (plain : Plain ctx) {name : String} {x : Expr} (valid : IsName name)
    (formed : FormedExpr x) {fuel depth : Nat} {s : Rest} (nameFueled : (letters name.toList).length < fuel)
    (fueled : (lexed (spell x)).length < fuel) :
    Reads (assignRule.parse (grammar.nestedAt fuel depth)) ctx
      (letters name.toList ++ .source " " :: .source "=" :: .source " " ::
        (lexed (spell x) ++ .source ";" :: s))
      (.assign name x false) (.source ";" :: s) := by
  have unaware (rest : Rest) : assignment? rest.bare = assignment? rest := by cases rest <;> rfl
  have name_eq : lexed (spell (.var name)) = letters name.toList := lexed_word valid.wordChars
  have target : FormedExpr (.var name) := .var valid
  have read (u : Rest) : Reads ((grammar.nestedAt fuel depth).expr lowest) ctx
      (letters name.toList ++ .source " " :: .source "=" :: u) (.var name) (.source "=" :: u) := by
    rw [← name_eq] at nameFueled ⊢
    exact target.reads_blank plain nameFueled (by decide : "=" ∈ closers) (target.skipSpace_spell _)
  refine Reads.location fun place => ?_
  refine (read _).bind ?_
  refine (reads_skipSpace_symbol plain (by decide) _).bind ?_
  refine (Reads.look (f := fun _ rest => assignment? rest) unaware).bind ?_
  refine Reads.advance fun _ _ => ?_
  exact (formed.reads_behind plain fueled).bind (Reads.pure _ _)

theorem reads_define (plain : Plain ctx) {name : String} {x : Expr} (valid : IsName name)
    (formed : FormedExpr x) {fuel depth : Nat} {s : Rest} (fueled : (lexed (spell x)).length < fuel) :
    Reads (letRule.parse (grammar.nestedAt fuel depth)) ctx
      (letters "let".toList ++ .source " " :: (letters name.toList ++
        .source " " :: .source "=" :: .source " " :: (lexed (spell x) ++ .source ";" :: s)))
      (.define name x) (.source ";" :: s) := by
  have blank (t : Rest) : Clear (.source " " :: t) := clear_symbol (by decide) t
  have opens (t : Rest) : skipSpace (.source " " :: (letters name.toList ++ t)) = letters name.toList ++ t :=
    ((opens_letters valid.ne_nil valid.wordChars).append t).skipSpace
  have sign (t : Rest) : skipSpace (.source " " :: .source "=" :: t) = .source "=" :: t :=
    skipSpace_symbol (by decide : "=" ∈ inks) t
  have notMut (t : Rest) : Rest.isKeyword "mut" (letters name.toList ++ .source " " :: t) = false := by
    have free := valid.free
    rw [Rest.isKeyword, word_letters valid.wordChars (blank t), String.ofList_toList, beq_eq_false_iff_ne]
    rintro rfl
    exact free (by decide)
  refine (reads_letters (by decide) (blank _)).bind ?_
  refine (reads_skipSpace plain _).bind ?_
  rw [opens]
  refine (Reads.look (Rest.isKeyword_bare "mut")).bind ?_
  rw [notMut]
  refine (valid.reads (blank _)).bind ?_
  refine (reads_skipSpace plain _).bind ?_
  rw [sign]
  refine (Reads.isAt ":" _).bind ?_
  refine Reads.expect (isAtAny_singleton "=" _) fun _ _ => ?_
  exact (formed.reads_behind plain fueled).bind (Reads.pure _ _)

theorem reads_word {word : String} (wordlike : ∀ c ∈ word.toList, Text.isWordChar c) (statement : Stmt)
    {fuel depth : Nat} {s : Rest} :
    Reads ((wordRule word statement).parse (grammar.nestedAt fuel depth)) ctx
      (letters word.toList ++ .source ";" :: s) statement (.source ";" :: s) :=
  (reads_letters wordlike (clear_symbol (by decide) s)).bind (Reads.pure _ _)

def endsReturn (ctx : Context) (rest : Rest) : Bool :=
  Rest.isAt ";" rest || Rest.isAt "\x7d" rest || ctx.atEnd rest

theorem endsReturn_bare (rest : Rest) : endsReturn ctx rest.bare = endsReturn ctx rest := by
  simp [endsReturn]

theorem reads_returnNone (plain : Plain ctx) {fuel depth : Nat} {s : Rest} :
    Reads (returnRule.parse (grammar.nestedAt fuel depth)) ctx
      (letters "return".toList ++ .source ";" :: s) (.returnWith none) (.source ";" :: s) := by
  have ends : endsReturn ctx (.source ";" :: s) = true := by simp [endsReturn]
  refine (reads_letters (by decide) (clear_symbol (by decide) s)).bind ?_
  refine (reads_skipSpace_symbol plain (by decide) s).bind ?_
  refine (Reads.look (f := endsReturn) endsReturn_bare).bind ?_
  rw [ends]
  exact Reads.pure _ _

theorem reads_returnSome (plain : Plain ctx) {x : Expr} (formed : FormedExpr x) {fuel depth : Nat}
    {s : Rest} (fueled : (lexed (spell x)).length < fuel) :
    Reads (returnRule.parse (grammar.nestedAt fuel depth)) ctx
      (letters "return".toList ++ .source " " :: (lexed (spell x) ++ .source ";" :: s))
      (.returnWith (some x)) (.source ";" :: s) := by
  have opens := formed.phrase.opens.append (.source ";" :: s)
  have goesOn : endsReturn ctx (lexed (spell x) ++ .source ";" :: s) = false := by
    simp only [endsReturn, opens.isAt_eq_false (by decide : isWordText ";" = false) (by decide),
      opens.isAt_eq_false (by decide : isWordText "\x7d" = false) (by decide), opens.atEnd ctx,
      Bool.or_self]
  refine (reads_letters (by decide) (clear_symbol (by decide) _)).bind ?_
  refine (reads_skipSpace plain _).bind ?_
  rw [skipSpace_blank, formed.skipSpace_spell]
  refine (Reads.look (f := endsReturn) endsReturn_bare).bind ?_
  rw [goesOn]
  exact (formed.reads plain fueled (by decide) (formed.skipSpace_spell _)).bind (Reads.pure _ _)

theorem reads_print (plain : Plain ctx) {x : Expr} (formed : FormedExpr x) {fuel depth : Nat}
    {s : Rest} (fueled : (lexed (spell x)).length < fuel) :
    Reads (printRule.parse (grammar.nestedAt fuel depth)) ctx
      (letters "print".toList ++ enclosed (lexed (spell x)) ++ s) (output "print_native" x) s := by
  have phrases : ∀ y ∈ [x], Phrase (level y) y (lexed (spell y)) := by
    intro y member
    rw [List.mem_singleton.mp member]
    exact formed.phrase
  simp only [enclosed, List.append_assoc, List.cons_append, List.nil_append]
  refine (reads_letters (by decide) (clear_symbol (by decide) _)).bind ?_
  refine (reads_skipSpace_symbol plain (by decide) _).bind ?_
  refine Reads.advance fun _ _ => ?_
  refine (reads_arguments plain phrases (fun y member => (phrases y member).readable plain) fueled).bind ?_
  exact Reads.pure _ s

theorem ofMacro?_macroArgs {x : Expr} (filled : ∀ text, x = .literal (.str text) → text = "") :
    ofMacro? (macroArgs x) = some x := by
  unfold macroArgs
  split
  next text =>
    rw [filled text rfl]
    rfl
  next => rfl
  next noText noTemplate =>
    unfold ofMacro?
    split
    next same => cases same
    next template rest same =>
      cases same
      exact absurd rfl (noText template)
    next only other same =>
      cases same
      rfl
    next none => exact absurd rfl (none x)

theorem FormedExpr.macroArgs {x : Expr} (formed : FormedExpr x) : ∀ y ∈ macroArgs x, FormedExpr y := by
  unfold MiniRust.macroArgs
  split
  next => exact List.forall_mem_nil _
  next template args =>
    generalize same : Expr.format template args = z at formed
    cases formed with
    | format each =>
      cases same
      intro y member
      rcases List.mem_cons.mp member with rfl | inside
      · exact .str template
      · exact each y inside
    | @between op => cases op <;> cases same
    | _ => cases same
  next =>
    intro y member
    rw [List.mem_singleton.mp member]
    exact formed

theorem reads_write (plain : Plain ctx) {x : Expr} (formed : FormedExpr x)
    (filled : ∀ text, x = .literal (.str text) → text = "") {fuel depth : Nat} {s : Rest}
    (fueled : (macroLexemes "print" ((macroArgs x).map fun y => lexed (spell y))).length ≤ fuel) :
    Reads ((printBangRule "print" "write_native").parse (grammar.nestedAt fuel depth)) ctx
      (macroLexemes "print" ((macroArgs x).map fun y => lexed (spell y)) ++ s) (output "write_native" x) s := by
  have phrases : ∀ y ∈ macroArgs x, Phrase (level y) y (lexed (spell y)) := fun y member =>
    (formed.macroArgs y member).phrase
  have read := @reads_bang ctx plain "print" (by decide) _ _ _ phrases
    (fun y member => (phrases y member).readable plain) x (ofMacro?_macroArgs filled) fuel depth s fueled
  exact read.bind (Reads.pure _ s)

end ScriptKernel.MiniRust
