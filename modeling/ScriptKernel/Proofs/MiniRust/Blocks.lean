import ScriptKernel.Proofs.MiniRust.Statements

/-!
Statements with blocks in them. The statements of a block are read one after
the other; by induction on the statement the text of every well-formed
statement is read as that statement.
-/

namespace ScriptKernel.MiniRust

open Written
open Lumen (parenthesized commas)
open ScriptKernel.Parser (Reads)

variable {ctx : Context}

def blanks (level : Nat) : Rest :=
  List.replicate (4 * level) (.source " ")

theorem lexed_indent (level : Nat) (rest : List Char) : lexed (indent level ++ rest) = blanks level ++ lexed rest := by
  unfold indent blanks
  induction 4 * level with
  | zero => rfl
  | succ n ih =>
    rw [List.replicate_succ, List.cons_append, lexed_char (by decide), ih]
    rfl

theorem skipSpace_blanks (level : Nat) (s : Rest) : skipSpace (blanks level ++ s) = skipSpace s := by
  unfold blanks
  induction 4 * level with
  | zero => rfl
  | succ n ih => rw [List.replicate_succ, List.cons_append, skipSpace_blank, ih]

theorem skipTrivia_blanks (level : Nat) (s : Rest) : skipTrivia (blanks level ++ s) = skipTrivia s := by
  unfold blanks
  induction 4 * level with
  | zero => rfl
  | succ n ih => rw [List.replicate_succ, List.cons_append, skipTrivia_blank, ih]

theorem lexed_braces (level : Nat) (text rest : List Char) :
    lexed (braces level text ++ rest) =
      .source "\x7b" :: .source "\n" :: (lexed text ++ (blanks level ++ .source "\x7d" :: lexed rest)) := by
  have apart : ∀ d ∈ (indent level ++ '\x7d' :: rest).head?, d ∉ pairs.map Prod.snd := by
    unfold indent
    cases 4 * level with
    | zero =>
      rintro _ ⟨⟩
      decide
    | succ n =>
      rintro _ ⟨⟩
      decide
  have inner : lexed (text ++ (indent level ++ '\x7d' :: rest)) =
      lexed text ++ (blanks level ++ .source "\x7d" :: lexed rest) := by
    have cut : lexed (text ++ (indent level ++ '\x7d' :: rest)) = lexed text ++ lexed (indent level ++ '\x7d' :: rest) :=
      Lexer.lexed_append paired apart
    rw [cut, lexed_indent, lexed_char (by decide)]
    rfl
  have shape : braces level text ++ rest = '\x7b' :: '\n' :: (text ++ (indent level ++ '\x7d' :: rest)) := by
    simp [braces]
  rw [shape, lexed_char (by decide), lexed_char (by decide), inner]
  rfl

theorem lexed_braces_append (level : Nat) (text rest : List Char) :
    lexed (braces level text ++ rest) = lexed (braces level text) ++ lexed rest := by
  have alone := lexed_braces level text []
  rw [List.append_nil, lexed_nil] at alone
  rw [lexed_braces, alone]
  simp

theorem lexed_lines (level : Nat) (s : Stmt) (more : List Stmt) :
    lexed (lines level (s :: more)) =
      blanks level ++ (lexed (statement level s) ++ .source "\n" :: lexed (lines level more)) := by
  show lexed (indent level ++ statement level s ++ '\n' :: lines level more) = _
  rw [List.append_assoc, lexed_indent, lexed_before (by decide)]
  rfl

theorem otherwise_cases (level : Nat) (no : List Stmt) :
    no = [] ∨ (∃ test yes more, no = [.cond test yes more] ∧
        otherwise level no = " else ".toList ++ statement level (.cond test yes more)) ∨
      otherwise level no = " else ".toList ++ braces level (lines (level + 1) no) := by
  unfold otherwise
  split
  next => exact Or.inl rfl
  next test yes more => exact Or.inr (Or.inl ⟨test, yes, more, rfl, rfl⟩)
  next => exact Or.inr (Or.inr rfl)

theorem FormedExpr.expression {x : Expr} (formed : FormedExpr x) : expression x = spell x := by
  unfold MiniRust.expression
  split
  next selector keys y =>
    generalize same : Expr.hostCall selector keys [y] = z at formed
    cases formed with
    | @between op => cases op <;> cases same
    | _ => cases same
  next => rfl

section Lexed

variable (level : Nat)

theorem lexed_expr {x : Expr} (formed : FormedExpr x) :
    lexed (statement level (.expr x)) = lexed (spell x) ++ [.source ";"] := by
  show lexed (expression x ++ [';']) = _
  rw [formed.expression, lexed_ended]

theorem lexed_print (x : Expr) :
    lexed (statement level (output "print_native" x)) =
      letters "print".toList ++ enclosed (lexed (spell x)) ++ [.source ";"] := by
  have form : expression (.hostCall "print_native" [⟨"", "print_native"⟩] [x]) =
      "print".toList ++ parenthesized (spell x) := by
    rw [expression, if_pos rfl]
  show lexed (expression (.hostCall "print_native" [⟨"", "print_native"⟩] [x]) ++ [';']) = _
  rw [form, lexed_ended, lexed_append_parenthesized, lexed_word (by decide)]

theorem lexed_write (x : Expr) :
    lexed (statement level (output "write_native" x)) =
      macroLexemes "print" ((macroArgs x).map fun y => lexed (spell y)) ++ [.source ";"] := by
  have form : expression (.hostCall "write_native" [⟨"", "write_native"⟩] [x]) =
      "print".toList ++ '!' :: parenthesized (commas (spells (macroArgs x))) := by
    rw [expression, if_neg (by decide)]
    rfl
  show lexed (expression (.hostCall "write_native" [⟨"", "write_native"⟩] [x]) ++ [';']) = _
  rw [form, lexed_ended, lexed_bang (by decide), lexed_spells]
  rfl

theorem lexed_define {name : String} (valid : IsName name) (x : Expr) :
    lexed (statement level (.define name x)) =
      letters "let".toList ++ .source " " :: (letters name.toList ++
        .source " " :: .source "=" :: .source " " :: lexed (spell x)) ++ [.source ";"] := by
  show lexed (("let".toList ++ ' ' :: (name.toList ++ " = ".toList ++ spell x)) ++ [';']) = _
  rw [lexed_ended, lexed_keyword (by decide), lexed_assigned valid]

theorem lexed_assign {name : String} (valid : IsName name) (x : Expr) (orDefine : Bool) :
    lexed (statement level (.assign name x orDefine)) =
      letters name.toList ++ .source " " :: .source "=" :: .source " " :: lexed (spell x) ++ [.source ";"] := by
  show lexed ((name.toList ++ " = ".toList ++ spell x) ++ [';']) = _
  rw [lexed_ended, lexed_assigned valid]

theorem lexed_simple {word : List Char} (wordlike : ∀ c ∈ word, Text.isWordChar c) :
    lexed (word ++ [';']) = letters word ++ [.source ";"] := by
  rw [lexed_ended, lexed_word wordlike]

theorem lexed_return (x : Expr) :
    lexed (statement level (.returnWith (some x))) =
      letters "return".toList ++ .source " " :: lexed (spell x) ++ [.source ";"] := by
  show lexed (("return".toList ++ ' ' :: spell x) ++ [';']) = _
  rw [lexed_ended, lexed_keyword (by decide)]

theorem lexed_while (test : Expr) (body : List Stmt) (negated : Bool) :
    lexed (statement level (.whileLoop test body negated)) =
      letters "while".toList ++ .source " " :: (lexed (spell test) ++ [.source " "]) ++
        lexed (braces level (lines (level + 1) body)) := by
  show lexed (("while".toList ++ ' ' :: spell test) ++ ' ' :: braces level (lines (level + 1) body)) = _
  rw [lexed_before (by decide), lexed_keyword (by decide)]
  simp only [List.append_assoc, List.cons_append]
  rfl

theorem lexed_loop (body : List Stmt) :
    lexed (statement level (.endless body)) =
      letters "loop".toList ++ [.source " "] ++ lexed (braces level (lines (level + 1) body)) := by
  show lexed ("loop".toList ++ ' ' :: braces level (lines (level + 1) body)) = _
  rw [lexed_keyword (by decide), List.append_assoc]
  rfl

theorem lexed_cond (test : Expr) (yes no : List Stmt) :
    lexed (statement level (.cond test yes no)) =
      letters "if".toList ++ .source " " :: (lexed (spell test) ++
        .source " " :: (lexed (braces level (lines (level + 1) yes)) ++ lexed (otherwise level no))) := by
  show lexed (("if".toList ++ ' ' :: spell test) ++
    ' ' :: braces level (lines (level + 1) yes) ++ otherwise level no) = _
  rw [List.append_assoc, List.cons_append, lexed_before (by decide), lexed_keyword (by decide),
    lexed_braces_append, List.append_assoc]
  rfl

theorem lexed_fn {name : String} (valid : IsName name) {params : List String}
    (names : ∀ param ∈ params, IsName param) (label : Nat) (body : List Stmt) :
    lexed (statement level (.declare label name params body)) =
      letters "fn".toList ++ .source " " :: (letters name.toList ++
        (enclosed (listed (params.map fun param => letters param.toList)) ++ [.source " "])) ++
          lexed (braces level (lines (level + 1) body)) := by
  show lexed (("fn".toList ++ ' ' :: (name.toList ++ parenthesized (commas (params.map String.toList)))) ++
    ' ' :: braces level (lines (level + 1) body)) = _
  rw [lexed_before (by decide), lexed_keyword (by decide), lexed_append_parenthesized, lexed_params names,
    lexed_word valid.wordChars]
  simp only [List.append_assoc, List.cons_append]
  rfl

end Lexed

/-- Lexemes that begin a statement and are no further branch, whatever stands
behind them. -/
structure Fresh (shape : Rest) : Prop where
  opens : Opens shape
  noBranch : ∀ rest, Rest.word (shape ++ rest) ≠ "else"

theorem fresh_letters {text : List Char} (nonempty : text ≠ []) (word : ∀ c ∈ text, Text.isWordChar c)
    (other : String.ofList text ≠ "else") {mark : String} (known : mark ∈ symbols) (tail : Rest) :
    Fresh (letters text ++ .source mark :: tail) := by
  refine ⟨(opens_letters nonempty word).append _, fun rest => ?_⟩
  rw [List.append_assoc, List.cons_append, word_letters word (clear_symbol known _)]
  exact other

theorem FormedStmt.fresh {s : Stmt} (formed : FormedStmt s) (level : Nat) :
    Fresh (lexed (statement level s)) := by
  cases formed with
  | @expr x formed =>
    rw [lexed_expr level formed]
    refine ⟨formed.phrase.opens.append _, fun rest => ?_⟩
    rw [List.append_assoc]
    have other := formed.phrase.word_notMem (clear_symbol (by decide : ";" ∈ symbols) rest)
    have branch : "else" ∈ statementWords := by decide
    exact fun same => other (same ▸ branch)
  | @print x formed =>
    rw [lexed_print, List.append_assoc]
    exact fresh_letters (by decide) (by decide) (by decide) (by decide : "(" ∈ symbols) _
  | @write x formed filled =>
    rw [lexed_write, macroLexemes, List.append_assoc]
    exact fresh_letters (by decide) (by decide) (by decide) (by decide : "!" ∈ symbols) _
  | @define name x valid formed =>
    rw [lexed_define level valid, List.append_assoc]
    exact fresh_letters (by decide) (by decide) (by decide) (by decide) _
  | @assign name x valid formed =>
    rw [lexed_assign level valid, List.append_assoc]
    refine fresh_letters valid.ne_nil valid.wordChars ?_ (by decide) _
    rw [String.ofList_toList]
    rintro rfl
    exact valid.free (by decide)
  | @block body each =>
    show Fresh (lexed (braces level (lines (level + 1) body)))
    have shape := lexed_braces level (lines (level + 1) body) []
    rw [List.append_nil] at shape
    rw [shape]
    refine ⟨opens_symbol (by decide) _, fun rest => ?_⟩
    rw [List.cons_append, word_symbol (by decide)]
    decide
  | cond formed yesFormed noFormed =>
    rw [lexed_cond]
    exact fresh_letters (by decide) (by decide) (by decide) (by decide) _
  | whileLoop formed each =>
    rw [lexed_while, List.append_assoc]
    exact fresh_letters (by decide) (by decide) (by decide) (by decide) _
  | endless each =>
    rw [lexed_loop, List.append_assoc]
    exact fresh_letters (by decide) (by decide) (by decide) (by decide) _
  | breakLoop =>
    show Fresh (lexed ("break".toList ++ [';']))
    rw [lexed_simple (by decide)]
    exact fresh_letters (by decide) (by decide) (by decide) (by decide) _
  | continueLoop =>
    show Fresh (lexed ("continue".toList ++ [';']))
    rw [lexed_simple (by decide)]
    exact fresh_letters (by decide) (by decide) (by decide) (by decide) _
  | returnNone =>
    show Fresh (lexed ("return".toList ++ [';']))
    rw [lexed_simple (by decide)]
    exact fresh_letters (by decide) (by decide) (by decide) (by decide) _
  | returnSome formed =>
    rw [lexed_return, List.append_assoc]
    exact fresh_letters (by decide) (by decide) (by decide) (by decide) _
  | declare valid names distinct each =>
    rw [lexed_fn level valid names, List.append_assoc]
    exact fresh_letters (by decide) (by decide) (by decide) (by decide) _

def NoBranch (s : Rest) : Prop :=
  Rest.word (skipSpace s) ≠ "else"

theorem noBranch_lines {body : List Stmt} (formed : ∀ s ∈ body, FormedStmt s) (level : Nat) {rest : Rest}
    (follow : NoBranch rest) : NoBranch (lexed (lines level body) ++ rest) := by
  cases body with
  | nil =>
    show NoBranch (lexed [] ++ rest)
    rwa [lexed_nil]
  | cons s more =>
    have fresh := (formed s List.mem_cons_self).fresh level
    rw [lexed_lines, NoBranch, List.append_assoc, skipSpace_blanks, List.append_assoc,
      (fresh.opens.append _).skipSpace]
    exact fresh.noBranch _

def ReadableStmt (ctx : Context) (s : Stmt) : Prop :=
  ∀ (level fuel depth : Nat) (rest : Rest), NoBranch rest → (lexed (statement level s)).length < fuel →
    ∃ t, skipTrivia t = skipTrivia rest ∧ t.length < (lexed (statement level s) ++ rest).length ∧
      Reads ((grammar.nestedAt fuel depth).statement) ctx (lexed (statement level s) ++ rest) s t

theorem reads_lines (plain : Plain ctx) {stop : Context → Rest → Bool}
    (unaware : ∀ rest : Rest, stop ctx rest.bare = stop ctx rest)
    (goesOn : ∀ s, Opens s → stop ctx s = false) {body : List Stmt} (formed : ∀ s ∈ body, FormedStmt s)
    (each : ∀ s ∈ body, ReadableStmt ctx s) {level fuel depth : Nat} {rest : Rest} (follow : NoBranch rest)
    (stops : stop ctx (skipTrivia rest)) (fueled : (lexed (lines level body)).length < fuel)
    (done : List Stmt) {steps : Nat} {u : Rest} (enough : (lexed (lines level body)).length < steps)
    (written : skipTrivia u = skipTrivia (lexed (lines level body) ++ rest)) :
    Reads (Grammar.blockFrom (grammar.nestedAt fuel depth).statement stop steps done) ctx u
      (done.reverse ++ body) (skipTrivia rest) := by
  induction body generalizing done steps u with
  | nil =>
    obtain ⟨steps, rfl⟩ : ∃ fewer, steps = fewer + 1 := ⟨steps - 1, by omega⟩
    have empty : lexed (lines level []) = [] := lexed_nil
    rw [empty, List.nil_append] at written
    have here : ctx.skipTrivia u = skipTrivia rest := by rw [plain.skipTrivia, written]
    have ended : Reads (Grammar.blockFrom (grammar.nestedAt fuel depth).statement stop (steps + 1) done) ctx u
        done.reverse (ctx.skipTrivia u) :=
      Grammar.reads_block_end plain.placeless unaware done (by rw [here]; exact stops)
    rwa [here, ← List.append_nil done.reverse] at ended
  | cons s more ih =>
    have formedMore : ∀ other ∈ more, FormedStmt other := fun other member =>
      formed other (List.mem_cons_of_mem s member)
    have fresh := (formed s List.mem_cons_self).fresh level
    rw [lexed_lines, List.length_append, List.length_append, List.length_cons] at fueled enough
    obtain ⟨l, tail, head, -⟩ := fresh.opens
    have positive : 0 < (lexed (statement level s)).length := by rw [head]; exact Nat.zero_lt_succ _
    obtain ⟨steps, rfl⟩ : ∃ fewer, steps = fewer + 1 := ⟨steps - 1, by omega⟩
    have opens := fresh.opens.append (.source "\n" :: (lexed (lines level more) ++ rest))
    have here : ctx.skipTrivia u =
        lexed (statement level s) ++ .source "\n" :: (lexed (lines level more) ++ rest) := by
      rw [plain.skipTrivia, written, lexed_lines, List.append_assoc, skipTrivia_blanks, List.append_assoc,
        List.cons_append, opens.skipTrivia]
    have followMore : NoBranch (.source "\n" :: (lexed (lines level more) ++ rest)) :=
      noBranch_lines formedMore level follow
    obtain ⟨t, behind, shorter, read⟩ := each s List.mem_cons_self level fuel depth _ followMore (by omega)
    rw [skipTrivia_newline] at behind
    have enoughMore : (lexed (lines level more)).length < steps := by omega
    have continued := ih formedMore (fun other member => each other (List.mem_cons_of_mem s member))
      (by omega) (s :: done) enoughMore behind
    have split : (s :: done).reverse ++ more = done.reverse ++ s :: more := by simp
    rw [split] at continued
    refine Grammar.reads_block_step plain.placeless unaware ?_ ?_ ?_ ?_ continued
    · rw [here]
      exact goesOn _ opens
    · rw [here]
      exact opens.atEnd ctx
    · rw [here]
      exact read
    · rw [here]
      exact shorter

theorem reads_block (plain : Plain ctx) {body : List Stmt} (formed : ∀ s ∈ body, FormedStmt s)
    (each : ∀ s ∈ body, ReadableStmt ctx s) {inner outer fuel depth : Nat}
    (fueled : (lexed (lines inner body)).length < fuel) (s : Rest) {u : Rest}
    (written : skipSpace u = lexed (braces outer (lines inner body)) ++ s) :
    Reads (block (grammar.nestedAt fuel depth)) ctx u body s := by
  have shape := lexed_braces outer (lines inner body) []
  rw [List.append_nil, lexed_nil] at shape
  rw [shape] at written
  simp only [List.cons_append, List.append_assoc, List.nil_append] at written
  have closing : skipTrivia (blanks outer ++ .source "\x7d" :: s) = .source "\x7d" :: s := by
    rw [skipTrivia_blanks]
    exact skipFrom_solid ⟨by decide, Or.inr (by decide)⟩ _
  have follow : NoBranch (blanks outer ++ .source "\x7d" :: s) := by
    rw [NoBranch, skipSpace_blanks, skipSpace_symbol (by decide), word_symbol (by decide)]
    decide
  refine (reads_skipSpace plain u).bind ?_
  rw [written]
  refine Reads.expect (isAtAny_singleton "\x7b" _) fun _ _ => ?_
  refine Reads.bind (a := body) (t := .source "\x7d" :: s) ?_ (Reads.advance fun _ _ => Reads.pure _ _)
  intro input same
  have read := @reads_lines ctx plain (fun _ rest => Rest.isAt "\x7d" rest) (Rest.isAt_bare "\x7d")
    (fun s opens => opens.isAt_eq_false (by decide) (by decide)) body formed each inner fuel depth _ follow
    (by rw [closing]; simp) fueled [] (input.length + 1)
    (.source "\n" :: (lexed (lines inner body) ++ (blanks outer ++ .source "\x7d" :: s)))
    (by rw [← Rest.length_bare input, same]; simp only [List.length_cons, List.length_append]; omega) rfl
  rw [closing] at read
  exact read input same

theorem readable_simple (plain : Plain ctx) (rule : Statement) {s : Stmt} {shape : Rest}
    (written : ∀ level, lexed (statement level s) = shape ++ [.source ";"]) (nonempty : shape ≠ [])
    (found : ∀ u, grammar.statements.find? (·.applies ctx (shape ++ .source ";" :: u)) = some rule)
    (parsed : ∀ fuel depth u, shape.length < fuel →
      Reads (rule.parse (grammar.nestedAt fuel depth)) ctx (shape ++ .source ";" :: u) s (.source ";" :: u)) :
    ReadableStmt ctx s := by
  intro level fuel depth rest follow fueled
  have positive := List.length_pos_iff.2 nonempty
  rw [written, List.length_append, List.length_singleton] at fueled
  obtain ⟨fuel, rfl⟩ : ∃ fewer, fuel = fewer + 1 := ⟨fuel - 1, by omega⟩
  rw [written, List.append_assoc, List.singleton_append]
  refine ⟨.source ";" :: rest, skipTrivia_semicolon rest, ?_, ?_⟩
  · simp only [List.length_append, List.length_cons]
    omega
  · exact reads_rule plain (found rest) (parsed fuel (depth + 1) rest (by omega))

theorem readable_braced (plain : Plain ctx) (rule : Statement) {s : Stmt} {body : List Stmt}
    (formed : ∀ s ∈ body, FormedStmt s) (each : ∀ s ∈ body, ReadableStmt ctx s) (shape : Rest)
    (written : ∀ level, lexed (statement level s) = shape ++ lexed (braces level (lines (level + 1) body)))
    (found : ∀ u, grammar.statements.find? (·.applies ctx (shape ++ .source "\x7b" :: u)) = some rule)
    (parsed : ∀ fuel depth u rest, shape.length < fuel →
      (∀ v, skipSpace v = .source "\x7b" :: u → Reads (block (grammar.nestedAt fuel depth)) ctx v body rest) →
      Reads (rule.parse (grammar.nestedAt fuel depth)) ctx (shape ++ .source "\x7b" :: u) s rest) :
    ReadableStmt ctx s := by
  intro level fuel depth rest follow fueled
  have braced := lexed_braces level (lines (level + 1) body) []
  rw [List.append_nil, lexed_nil] at braced
  rw [written, List.length_append] at fueled
  have longer : (lexed (lines (level + 1) body)).length + 3 ≤
      (lexed (braces level (lines (level + 1) body))).length := by
    rw [braced]
    simp only [List.length_append, List.length_cons, List.length_nil]
    omega
  obtain ⟨fuel, rfl⟩ : ∃ fewer, fuel = fewer + 1 := ⟨fuel - 1, by omega⟩
  refine ⟨rest, rfl, ?_, ?_⟩
  · rw [written, List.length_append, List.length_append]
    omega
  · have inside (v : Rest) (here : skipSpace v = lexed (braces level (lines (level + 1) body)) ++ rest) :
        Reads (block (grammar.nestedAt fuel (depth + 1))) ctx v body rest :=
      reads_block plain formed each (by omega) rest here
    rw [written, List.append_assoc]
    rw [braced] at inside ⊢
    exact reads_rule plain (found _) (parsed fuel (depth + 1) _ rest (by omega) inside)

theorem FormedExpr.reads_test (plain : Plain ctx) {test : Expr} (formed : FormedExpr test) {fuel depth : Nat}
    {u : Rest} (fueled : (lexed (spell test)).length < fuel) :
    Reads ((grammar.nestedAt fuel depth).expr lowest) ctx
      (.source " " :: (lexed (spell test) ++ .source " " :: .source "\x7b" :: u)) test (.source "\x7b" :: u) :=
  formed.reads_blank plain fueled (by decide) (formed.skipSpace_spell _)

theorem skipSpace_brace (u : Rest) :
    skipSpace (.source " " :: .source "\x7b" :: u) = .source "\x7b" :: u ∧
      skipSpace (.source "\x7b" :: u) = .source "\x7b" :: u :=
  ⟨skipSpace_symbol (by decide : "\x7b" ∈ inks) u, skipSpace_symbol (by decide) u⟩

theorem reads_while (plain : Plain ctx) {test : Expr} (formed : FormedExpr test) {body : List Stmt}
    {fuel depth : Nat} {u rest : Rest} (fueled : (lexed (spell test)).length < fuel)
    (inside : ∀ v, skipSpace v = .source "\x7b" :: u → Reads (block (grammar.nestedAt fuel depth)) ctx v body rest) :
    Reads (whileRule.parse (grammar.nestedAt fuel depth)) ctx
      (letters "while".toList ++ .source " " :: (lexed (spell test) ++ .source " " :: .source "\x7b" :: u))
      (.whileLoop test body false) rest := by
  refine (reads_letters (by decide) (clear_symbol (by decide) _)).bind ?_
  refine (formed.reads_test plain fueled).bind ?_
  exact (inside _ (skipSpace_brace u).2).bind (Reads.pure _ _)

theorem reads_loop {body : List Stmt} {fuel depth : Nat} {u rest : Rest}
    (inside : ∀ v, skipSpace v = .source "\x7b" :: u → Reads (block (grammar.nestedAt fuel depth)) ctx v body rest) :
    Reads (loopRule.parse (grammar.nestedAt fuel depth)) ctx
      (letters "loop".toList ++ .source " " :: .source "\x7b" :: u) (.endless body) rest := by
  refine (reads_letters (by decide) (clear_symbol (by decide) _)).bind ?_
  exact (inside _ (skipSpace_brace u).1).bind (Reads.pure _ _)

theorem reads_parameter (plain : Plain ctx) {param : String} (valid : IsName param) {known : List String}
    (fresh : param ∉ known) {s : Rest} (clear : Clear s) (solid : skipSpace s = s)
    (untyped : Rest.isAt ":" s = false) :
    Reads (parameter known) ctx (letters param.toList ++ s) param s := by
  refine Reads.location fun place => ?_
  refine (valid.reads clear).bind ?_
  have new : known.contains param = false := by simpa using fresh
  rw [new]
  have read := reads_skipSpace plain s
  rw [solid] at read
  refine read.bind ((Reads.isAt ":" s).bind ?_)
  rw [untyped]
  exact Reads.pure param s

theorem reads_parameters (plain : Plain ctx) {params : List String} (names : ∀ param ∈ params, IsName param)
    (distinct : params.Nodup) (s : Rest) :
    Reads (Parser.list "," ")" parameter) ctx
      (listed (params.map fun param => letters param.toList) ++ .source ")" :: s) params s := by
  have opens (param : String) (member : param ∈ params) (t : Rest) : Opens (letters param.toList ++ t) :=
    (opens_letters (names param member).ne_nil (names param member).wordChars).append t
  have form : Parser.ListForm ctx "," ")" parameter (fun param => letters param.toList) [] params := by
    constructor
    · intro param member t
      rw [plain.skipSpace]
      exact ⟨(opens param member t).skipSpace, (opens param member t).isAt_eq_false (by decide) (by decide)⟩
    · intro before param after t split _ here
      rw [List.nil_append] at split
      have member : param ∈ params := by simp [split]
      have fresh : param ∉ before := by
        rw [split, List.nodup_append] at distinct
        exact fun earlier => distinct.2.2 param earlier param List.mem_cons_self rfl
      have ends : Ends ctx t ∧ skipSpace t = t := by
        rcases here with comma | closed
        · exact ends_closer plain (by decide) comma
        · exact ends_closer plain (by decide) closed
      have untyped : Rest.isAt ":" t = false := by
        cases t with
        | nil => rfl
        | cons l t =>
          simp only [Rest.isAt, Bool.and_eq_true, beq_iff_eq] at here ⊢
          rcases here with ⟨-, comma⟩ | ⟨-, closed⟩
          · simp [comma]
          · simp [closed]
      exact reads_parameter plain (names param member) fresh ends.1.clear.toClear ends.2 untyped
  have still : ∀ text ∈ [",", ")"], ∀ t, ctx.skipSpace (.source text :: t) = .source text :: t := by
    rw [plain.skipSpace]
    exact skipSpace_separator
  have solid : ctx.skipSpace (listed (params.map fun param => letters param.toList) ++ .source ")" :: s) =
      listed (params.map fun param => letters param.toList) ++ .source ")" :: s := by
    cases params with
    | nil => exact still ")" (by decide) s
    | cons param more =>
      rw [plain.skipSpace]
      cases more with
      | nil => exact (opens param (by simp) _).skipSpace
      | cons next more =>
        simp only [listed, List.map_cons, Rest.joined, List.append_assoc]
        exact (opens param (by simp) _).skipSpace
  refine Parser.reads_list plain.placeless.toPlaceless (by decide) ?_ still params form _ s ?_ solid
  · intro t
    rw [plain.skipSpace]
    rfl
  · have fewer := Rest.length_joined [.source ",", .source " "]
      (params.map fun param => letters param.toList) (by decide)
    simp only [listed, List.length_append, List.length_cons, List.length_map] at fewer ⊢
    omega

theorem reads_fn (plain : Plain ctx) {name : String} (valid : IsName name) {params : List String}
    (names : ∀ param ∈ params, IsName param) (distinct : params.Nodup) {body : List Stmt} {fuel depth : Nat}
    {u rest : Rest}
    (inside : ∀ v, skipSpace v = .source "\x7b" :: u → Reads (block (grammar.nestedAt fuel depth)) ctx v body rest) :
    Reads (fnRule.parse (grammar.nestedAt fuel depth)) ctx
      (letters "fn".toList ++ .source " " :: (letters name.toList ++ .source "(" ::
        (listed (params.map fun param => letters param.toList) ++
          .source ")" :: .source " " :: .source "\x7b" :: u)))
      (.declare 0 name params body) rest := by
  have opens (s : Rest) : skipSpace (.source " " :: (letters name.toList ++ s)) = letters name.toList ++ s :=
    ((opens_letters valid.ne_nil valid.wordChars).append s).skipSpace
  refine (reads_letters (by decide) (clear_symbol (by decide) _)).bind ?_
  refine (reads_skipSpace plain _).bind ?_
  rw [opens]
  refine (valid.reads (clear_symbol (by decide) _)).bind ?_
  refine (reads_skipSpace_symbol plain (by decide) _).bind ?_
  refine Reads.expect (isAtAny_singleton "(" _) fun _ _ => ?_
  refine (reads_parameters plain names distinct _).bind ?_
  refine (reads_skipSpace plain _).bind ?_
  rw [(skipSpace_brace u).1]
  refine (Reads.isAt "->" _).bind ?_
  exact (inside _ (skipSpace_brace u).2).bind (Reads.pure _ _)

def ReadableBranch (ctx : Context) (s : Stmt) : Prop :=
  ∀ (level fuel depth steps : Nat) (rest : Rest), NoBranch rest → (lexed (statement level s)).length ≤ fuel →
    (lexed (statement level s)).length < steps →
    Reads (branches (grammar.nestedAt fuel depth) steps) ctx (lexed (statement level s) ++ rest) s rest

def endsBranches (ctx : Context) (rest : Rest) : Bool :=
  !(ctx.skipSpace rest).isKeyword "else"

theorem reads_endsBranches (plain : Plain ctx) (s : Rest) :
    Reads (Parser.look endsBranches) ctx s (!(skipSpace s).isKeyword "else") s := by
  have unaware (rest : Rest) : endsBranches ctx rest.bare = endsBranches ctx rest := by
    simp only [endsBranches, plain.placeless.skipSpace, Rest.isKeyword_bare]
  have read : Reads (Parser.look endsBranches) ctx s (endsBranches ctx s) s := Reads.look unaware
  rwa [endsBranches, plain.skipSpace] at read

theorem skipSpace_else (u : Rest) :
    skipSpace (.source " " :: (letters "else".toList ++ .source " " :: u)) =
      letters "else".toList ++ .source " " :: u :=
  ((opens_letters (by decide) (by decide)).append _).skipSpace

theorem isKeyword_else (u : Rest) :
    Rest.isKeyword "else" (letters "else".toList ++ .source " " :: u) = true := by
  rw [Rest.isKeyword, word_letters (by decide) (clear_symbol (by decide) u)]
  rfl

theorem reads_branch (plain : Plain ctx) {test : Expr} (formed : FormedExpr test) {yes no : List Stmt}
    (yesFormed : ∀ s ∈ yes, FormedStmt s) (yesReads : ∀ s ∈ yes, ReadableStmt ctx s)
    (noFormed : ∀ s ∈ no, FormedStmt s) (noReads : ∀ s ∈ no, ReadableStmt ctx s)
    (further : ∀ test' yes' more, no = [.cond test' yes' more] → ReadableBranch ctx (.cond test' yes' more)) :
    ReadableBranch ctx (.cond test yes no) := by
  intro level fuel depth steps rest follow fueled enough
  have block_length (body : List Stmt) : (lexed (lines (level + 1) body)).length + 3 ≤
      (lexed (braces level (lines (level + 1) body))).length := by
    have braced := lexed_braces level (lines (level + 1) body) []
    rw [List.append_nil, lexed_nil] at braced
    rw [braced]
    simp only [List.length_append, List.length_cons, List.length_nil]
    omega
  have brace (body : List Stmt) (s : Rest) : ∃ u,
      lexed (braces level (lines (level + 1) body)) ++ s = .source "\x7b" :: u := by
    have braced := lexed_braces level (lines (level + 1) body) []
    rw [List.append_nil, lexed_nil] at braced
    rw [braced]
    exact ⟨_, rfl⟩
  have yesLength := block_length yes
  obtain ⟨steps, rfl⟩ : ∃ fewer, steps = fewer + 1 := ⟨steps - 1, by omega⟩
  rw [lexed_cond] at fueled enough ⊢
  simp only [List.length_append, List.length_cons] at fueled enough
  simp only [List.append_assoc, List.cons_append]
  have yesFueled : (lexed (lines (level + 1) yes)).length < fuel := by omega
  obtain ⟨u, opened⟩ := brace yes (lexed (otherwise level no) ++ rest)
  have yesBlock : Reads (block (grammar.nestedAt fuel depth)) ctx (.source "\x7b" :: u) yes
      (lexed (otherwise level no) ++ rest) := by
    have written : skipSpace (.source "\x7b" :: u) =
        lexed (braces level (lines (level + 1) yes)) ++ (lexed (otherwise level no) ++ rest) := by
      rw [opened, skipSpace_symbol (by decide)]
    exact reads_block plain yesFormed yesReads yesFueled _ written
  rw [opened]
  refine (reads_letters (by decide) (clear_symbol (by decide) _)).bind ?_
  refine (formed.reads_test plain (by omega)).bind ?_
  refine yesBlock.bind ?_
  rcases otherwise_cases level no with rfl | ⟨test', yes', more, rfl, written⟩ | written
  · -- Nothing further.
    have nothing : lexed (otherwise level []) = [] := lexed_nil
    have ends : (!(skipSpace rest).isKeyword "else") = true := by
      simpa [Rest.isKeyword, NoBranch] using follow
    rw [nothing, List.nil_append]
    refine (reads_endsBranches plain rest).bind ?_
    rw [ends]
    exact Reads.pure _ _
  · -- A further branch.
    have lexemes : lexed (otherwise level [.cond test' yes' more]) =
        .source " " :: (letters "else".toList ++ .source " " :: lexed (statement level (.cond test' yes' more))) := by
      rw [written]
      show lexed (' ' :: ("else".toList ++ ' ' :: statement level (.cond test' yes' more))) = _
      rw [lexed_char (by decide), lexed_keyword (by decide)]
      rfl
    have opens : Opens (lexed (statement level (.cond test' yes' more))) :=
      ((noFormed _ List.mem_cons_self).fresh level).opens
    have isIf (s : Rest) : Rest.isKeyword "if" (lexed (statement level (.cond test' yes' more)) ++ s) = true := by
      rw [lexed_cond, Rest.isKeyword, List.append_assoc, List.cons_append,
        word_letters (by decide) (clear_symbol (by decide) _)]
      rfl
    rw [lexemes] at fueled enough ⊢
    simp only [List.length_append, List.length_cons] at fueled enough
    simp only [List.append_assoc, List.cons_append]
    refine (reads_endsBranches plain _).bind ?_
    rw [skipSpace_else, isKeyword_else]
    refine (reads_skipSpace plain _).bind ?_
    rw [skipSpace_else]
    refine (reads_letters (by decide) (clear_symbol (by decide) _)).bind ?_
    refine (reads_skipSpace plain _).bind ?_
    rw [skipSpace_blank, (opens.append rest).skipSpace]
    refine (Reads.look (Rest.isKeyword_bare "if")).bind ?_
    rw [isIf]
    exact (further test' yes' more rfl level fuel depth steps rest follow (by omega) (by omega)).bind (Reads.pure _ _)
  · -- Any other alternative.
    have lexemes : lexed (otherwise level no) =
        .source " " :: (letters "else".toList ++ .source " " :: lexed (braces level (lines (level + 1) no))) := by
      rw [written]
      show lexed (' ' :: ("else".toList ++ ' ' :: braces level (lines (level + 1) no))) = _
      rw [lexed_char (by decide), lexed_keyword (by decide)]
      rfl
    have noLength := block_length no
    obtain ⟨w, openedNo⟩ := brace no rest
    have noBlock : Reads (block (grammar.nestedAt fuel depth)) ctx (.source "\x7b" :: w) no rest := by
      rw [lexemes] at fueled
      simp only [List.length_append, List.length_cons] at fueled
      have noFueled : (lexed (lines (level + 1) no)).length < fuel := by omega
      have written : skipSpace (.source "\x7b" :: w) =
          lexed (braces level (lines (level + 1) no)) ++ rest := by
        rw [openedNo, skipSpace_symbol (by decide)]
      exact reads_block plain noFormed noReads noFueled rest written
    rw [lexemes]
    simp only [List.append_assoc, List.cons_append, openedNo]
    refine (reads_endsBranches plain _).bind ?_
    rw [skipSpace_else, isKeyword_else]
    refine (reads_skipSpace plain _).bind ?_
    rw [skipSpace_else]
    refine (reads_letters (by decide) (clear_symbol (by decide) _)).bind ?_
    refine (reads_skipSpace plain _).bind ?_
    rw [(skipSpace_brace w).1]
    refine (Reads.look (Rest.isKeyword_bare "if")).bind ?_
    rw [Rest.isKeyword, word_symbol (by decide)]
    exact noBlock.bind (Reads.pure _ _)

theorem readable_cond (plain : Plain ctx) {test : Expr} {yes no : List Stmt}
    (branch : ReadableBranch ctx (.cond test yes no)) : ReadableStmt ctx (.cond test yes no) := by
  intro level fuel depth rest follow fueled
  obtain ⟨fuel, rfl⟩ : ∃ fewer, fuel = fewer + 1 := ⟨fuel - 1, by omega⟩
  have written := lexed_cond level test yes no
  have seen : Rest.word (lexed (statement level (.cond test yes no)) ++ rest) = "if" := by
    rw [written, List.append_assoc, List.cons_append]
    exact word_letters (by decide) (clear_symbol (by decide) _)
  refine ⟨rest, rfl, ?_, reads_rule plain ((find_keyword _).2.2.1 seen) ?_⟩
  · rw [written]
    simp only [List.length_append, List.length_cons]
    omega
  · intro input same
    have length := congrArg List.length same
    rw [Rest.length_bare, List.length_append] at length
    exact branch level fuel (depth + 1) (input.length + 1) rest follow (by omega) (by omega) input same

theorem FormedStmt.readable (plain : Plain ctx) {s : Stmt} (formed : FormedStmt s) :
    ReadableStmt ctx s ∧ ∀ test yes no, s = .cond test yes no → ReadableBranch ctx s := by
  have blank (u : Rest) : Clear (.source " " :: u) := clear_symbol (by decide) u
  have semicolon (u : Rest) : Clear (.source ";" :: u) := clear_symbol (by decide) u
  have apart (u : Rest) : Apart (.source ";" :: u) := apart_symbol (by decide) (by decide) u
  have closed (u : Rest) : Rest.isAt "(" (skipSpace (.source ";" :: u)) = false := by
    rw [skipSpace_symbol (by decide)]
    rfl
  induction formed with
  | @expr x formed =>
    refine ⟨readable_simple plain assignRule (fun level => lexed_expr level formed) ?_ (fun u => ?_)
      (fun fuel depth u fueled => reads_expression plain formed fueled), by simp⟩
    · obtain ⟨l, rest, written, -⟩ := formed.phrase.opens
      rw [written]
      exact List.cons_ne_nil l rest
    · exact find_assign plain formed.phrase (apart u) fun _ => closed u
  | @print x formed =>
    refine ⟨readable_simple plain printRule (fun level => lexed_print level x) (by simp [enclosed])
      (fun u => ?_) (fun fuel depth u fueled => ?_), by simp [output]⟩
    · rw [List.append_assoc, enclosed, List.cons_append]
      exact (find_print plain _).2
    · simp only [enclosed, List.length_append, List.length_cons] at fueled
      exact reads_print plain formed (by omega)
  | @write x formed filled =>
    refine ⟨readable_simple plain (printBangRule "print" "write_native") (fun level => lexed_write level x)
      (by simp [macroLexemes]) (fun u => ?_) (fun fuel depth u fueled => ?_), by simp [output]⟩
    · rw [macroLexemes, List.append_assoc, List.cons_append]
      exact (find_print plain _).1
    · exact reads_write plain formed filled (Nat.le_of_lt fueled)
  | @define name x valid formed =>
    refine ⟨readable_simple plain letRule (fun level => lexed_define level valid x) (by simp [letters])
      (fun u => ?_) (fun fuel depth u fueled => ?_), by simp⟩
    · rw [List.append_assoc, List.cons_append]
      exact (find_keyword _).1 (word_letters (by decide) (blank _))
    · simp only [List.length_append, List.length_cons] at fueled
      simp only [List.append_assoc, List.cons_append]
      exact reads_define plain valid formed (by omega)
  | @assign name x valid formed =>
    refine ⟨readable_simple plain assignRule (fun level => lexed_assign level valid x false) (by simp)
      (fun u => ?_) (fun fuel depth u fueled => ?_), by simp⟩
    · rw [List.append_assoc, List.cons_append]
      refine find_assign plain (.var valid) (apart_symbol (by decide) (by decide) _) fun _ => ?_
      rw [skipSpace_blank, List.cons_append, skipSpace_symbol (by decide)]
      rfl
    · simp only [List.length_append, List.length_cons] at fueled
      simp only [List.append_assoc, List.cons_append]
      exact reads_assignment plain valid formed (by omega) (by omega)
  | @block body each ih =>
    refine ⟨readable_braced plain blockRule each (fun s member => (ih s member).1) [] (fun _ => rfl)
      (fun u => find_block u) (fun fuel depth u rest fueled inside => ?_), by simp⟩
    exact (inside _ (skipSpace_brace u).2).bind (Reads.pure _ _)
  | cond formed yesFormed noFormed ihYes ihNo =>
    have branch := reads_branch plain formed yesFormed (fun s member => (ihYes s member).1) noFormed
      (fun s member => (ihNo s member).1) (fun test yes more same =>
        (ihNo (.cond test yes more) (by simp [same])).2 test yes more rfl)
    exact ⟨readable_cond plain branch, fun _ _ _ _ => branch⟩
  | @whileLoop test body formed each ih =>
    refine ⟨readable_braced plain whileRule each (fun s member => (ih s member).1) _
      (fun level => lexed_while level test body false) (fun u => ?_)
      (fun fuel depth u rest fueled inside => ?_), by simp⟩
    · rw [List.append_assoc, List.cons_append]
      exact (find_keyword _).2.2.2.1 (word_letters (by decide) (blank _))
    · simp only [List.length_append, List.length_cons] at fueled
      simp only [List.append_assoc, List.cons_append, List.nil_append]
      exact reads_while plain formed (by omega) inside
  | @endless body each ih =>
    refine ⟨readable_braced plain loopRule each (fun s member => (ih s member).1) _
      (fun level => lexed_loop level body) (fun u => ?_) (fun fuel depth u rest fueled inside => ?_), by simp⟩
    · rw [List.append_assoc]
      exact (find_keyword _).2.2.2.2.1 (word_letters (by decide) (blank _))
    · rw [List.append_assoc]
      exact reads_loop inside
  | breakLoop =>
    refine ⟨readable_simple plain (wordRule "break" .breakLoop) (fun _ => @lexed_simple "break".toList (by decide))
      (by decide) (fun u => ?_) (fun fuel depth u fueled => reads_word (by decide) _), by simp⟩
    exact (find_keyword _).2.2.2.2.2.1 (word_letters (by decide) (semicolon u))
  | continueLoop =>
    refine ⟨readable_simple plain (wordRule "continue" .continueLoop)
      (fun _ => @lexed_simple "continue".toList (by decide)) (by decide) (fun u => ?_)
      (fun fuel depth u fueled => reads_word (by decide) _), by simp⟩
    exact (find_keyword _).2.2.2.2.2.2.1 (word_letters (by decide) (semicolon u))
  | returnNone =>
    refine ⟨readable_simple plain returnRule (fun _ => @lexed_simple "return".toList (by decide)) (by decide)
      (fun u => ?_) (fun fuel depth u fueled => reads_returnNone plain), by simp⟩
    exact (find_keyword _).2.2.2.2.2.2.2 (word_letters (by decide) (semicolon u))
  | @returnSome x formed =>
    refine ⟨readable_simple plain returnRule (fun level => lexed_return level x) (by simp) (fun u => ?_)
      (fun fuel depth u fueled => ?_), by simp⟩
    · rw [List.append_assoc, List.cons_append]
      exact (find_keyword _).2.2.2.2.2.2.2 (word_letters (by decide) (blank _))
    · simp only [List.length_append, List.length_cons] at fueled
      simp only [List.append_assoc, List.cons_append]
      exact reads_returnSome plain formed (by omega)
  | @declare name params body valid names distinct each ih =>
    refine ⟨readable_braced plain fnRule each (fun s member => (ih s member).1) _
      (fun level => lexed_fn level valid names 0 body) (fun u => ?_)
      (fun fuel depth u rest fueled inside => ?_), by simp⟩
    · rw [List.append_assoc, List.cons_append]
      exact (find_keyword _).2.1 (word_letters (by decide) (blank _))
    · simp only [enclosed, List.append_assoc, List.cons_append, List.nil_append]
      exact reads_fn plain valid names distinct inside

theorem reads_program (plain : Plain ctx) {program : List Stmt} (formed : ∀ s ∈ program, FormedStmt s) :
    Reads grammar.program ctx (lexed (lines 0 program) ++ [.sign "EOF"]) program [.sign "EOF"] := by
  rintro input same
  have length := congrArg List.length same
  rw [Rest.length_bare, List.length_append] at length
  have ends : ctx.atEnd (skipTrivia [.sign "EOF"]) = true := by
    show ctx.atEnd [.sign "EOF"] = true
    simp [Context.atEnd, plain.aliases]
  have follow : NoBranch [.sign "EOF"] := by
    show Rest.word [.sign "EOF"] ≠ "else"
    rw [word_sign]
    decide
  have read : Reads (Grammar.blockFrom (grammar.nestedAt (2 * input.length + 4) 0).statement Context.atEnd
      (input.length + 1) []) ctx (lexed (lines 0 program) ++ [.sign "EOF"]) program (skipTrivia [.sign "EOF"]) :=
    reads_lines plain (fun rest => ctx.atEnd_bare rest) (fun s opens => opens.atEnd ctx) formed
      (fun s member => ((formed s member).readable plain).1) follow ends (by omega) [] (by omega) rfl
  exact read input same

end ScriptKernel.MiniRust
