import ScriptKernel.Proofs.Lumen.Cursor
import ScriptKernel.Proofs.Lumen.Transfer
import ScriptKernel.Proofs.Parse.Yields
import ScriptKernel.Proofs.Session.Streams

/-!
Programs one behind the other. What is read up to the end of a stream is read of
one that goes on too, and then the statements of what follows. What follows is a
program itself, so that it does not start with a branch of the condition before
it.
-/

namespace ScriptKernel.Lumen

open ScriptKernel.Transfer (Carries Aligned)
open ScriptKernel.Grammar (NestedCarries)

variable {k : Transfer} {later rest rest' tokens : Rest}

theorem skipTrivia_skipTrivia (rest : Rest) : skipTrivia {} (skipTrivia {} rest) = skipTrivia {} rest :=
  List.dropWhile_idempotent _ rest

theorem blockFrom_skipTrivia {ctx : Context} (skips : ctx.skipTrivia = skipTrivia {}) (statement : Parser Stmt)
    (stop : Context → Rest → Bool) (fuel : Nat) (done : List Stmt) (rest : Rest) :
    Grammar.blockFrom statement stop (fuel + 1) done ctx (skipTrivia {} rest) =
      Grammar.blockFrom statement stop (fuel + 1) done ctx rest := by
  simp only [Grammar.blockFrom, skips, skipTrivia_skipTrivia]

/-- The statements up to the end of the first stream are read of the second too,
which goes on behind them. -/
theorem statements_continue (continued : Continued k later) {statement statement' : Parser Stmt} {room : Nat}
    (each : ∀ {rest rest'}, k.inside rest rest' → k.Carries k.after statement statement' rest rest')
    (moves : ∀ rest', k.walk.Moves room (k.walk.Eats 0 0) statement' rest') (fuel fuel' : Nat) (done done' : List Stmt)
    (related : k.after rest rest') (within : rest' <:+ k.walk.base) (fueled : rest'.length < fuel') {x : List Stmt}
    {reached : Rest} (parsed : Grammar.blockFrom statement Context.atEnd fuel done k.ctx rest = .ok x reached) :
    ∃ read left fuel'', x = done.reverse ++ read ∧ Rest.bare left = skipTrivia {} later ∧ left <:+ rest' ∧
      left.length < fuel'' ∧
      Grammar.blockFrom statement' Context.atEnd fuel' done' k.walk.ctx rest' =
        Grammar.blockFrom statement' Context.atEnd fuel'' (read.reverse ++ done') k.walk.ctx left := by
  have aligned := continued.aligned
  induction fuel generalizing fuel' done done' rest rest' with
  | zero => cases parsed
  | succ fuel ih =>
    obtain ⟨fuel', rfl⟩ := Nat.exists_eq_succ_of_ne_zero (Nat.ne_of_gt (Nat.zero_lt_of_lt fueled))
    have behind : k.walk.ctx.skipTrivia rest' <:+ rest' := by
      rw [continued.skipTrivia.2]
      exact List.dropWhile_suffix _
    simp only [Grammar.blockFrom] at parsed
    rcases continued.trivia related with skipped | ⟨ended, goes⟩
    · have open_ : ¬k.ctx.atEnd (k.ctx.skipTrivia rest) = true := by
        rw [continued.inside] at skipped
        simp [skipped.not_atEnd continued.aliases.1]
      have open' : ¬k.walk.ctx.atEnd (k.walk.ctx.skipTrivia rest') = true := by rwa [aligned.atEnd skipped]
      rw [if_neg open_, if_neg open_] at parsed
      cases read : Grammar.step statement k.ctx (k.ctx.skipTrivia rest) with
      | error e mid =>
        rw [read] at parsed
        cases parsed
      | ok s mid =>
        rw [read] at parsed
        obtain ⟨mid', read', behind', shorter, related'⟩ :=
          Grammar.step_carries (each skipped) (moves _) (behind.trans within) read
        have further := behind'.trans behind
        have fewer : mid'.length < fuel' := by
          have lengths := behind.length_le
          omega
        obtain ⟨more, left, fuel'', rfl, start, last, enough, same⟩ :=
          ih fuel' (s :: done) (s :: done') related' (further.trans within) fewer parsed
        refine ⟨s :: more, left, fuel'', by simp, start, last.trans further, enough, ?_⟩
        rw [Grammar.blockFrom]
        dsimp only
        rw [if_neg open', if_neg open', read']
        dsimp only
        rw [same, List.reverse_cons, List.append_assoc, List.singleton_append]
    · have ends : k.ctx.atEnd (k.ctx.skipTrivia rest) = true := by
        rw [← Context.atEnd_bare, ended, Context.atEnd, continued.aliases.1]
        rfl
      rw [if_pos ends] at parsed
      cases parsed
      refine ⟨[], k.walk.ctx.skipTrivia rest', fuel' + 1, by simp, goes, behind,
        Nat.lt_of_le_of_lt behind.length_le fueled, ?_⟩
      rw [continued.skipTrivia.2, blockFrom_skipTrivia continued.skipTrivia.2]
      rfl

theorem starts_statement {statement : Parser Stmt} {ctx : Context} {fuel : Nat} {done x : List Stmt} {reached : Rest}
    (parsed : Grammar.blockFrom statement Context.atEnd fuel done ctx rest = .ok x reached) :
    ctx.atEnd (ctx.skipTrivia rest) = true ∨ ∃ s reached, statement ctx (ctx.skipTrivia rest) = .ok s reached := by
  cases fuel with
  | zero => cases parsed
  | succ fuel =>
    simp only [Grammar.blockFrom] at parsed
    by_cases ended : ctx.atEnd (ctx.skipTrivia rest) = true
    · exact Or.inl ended
    rw [if_neg ended, if_neg ended, Grammar.step] at parsed
    cases read : statement ctx (ctx.skipTrivia rest) with
    | error e mid =>
      rw [read] at parsed
      cases parsed
    | ok s mid => exact Or.inr ⟨s, mid, rfl⟩

theorem statement_read {ctx : Context} {fuel depth : Nat} {s : Stmt} {reached : Rest}
    (parsed : (grammar.nestedAt fuel depth).statement ctx rest = .ok s reached) :
    ∃ fuel depth, grammar.statementWith (grammar.nestedAt fuel depth) ctx rest = .ok s reached := by
  cases fuel with
  | zero => cases parsed
  | succ fuel =>
    dsimp only [Grammar.nestedAt, Grammar.guarded] at parsed
    split at parsed
    · cases parsed
    · exact ⟨fuel, depth + 1, parsed⟩

theorem expr_read {ctx : Context} {fuel depth : Nat} {least : Precedence} {x : Expr} {reached : Rest}
    (parsed : (grammar.nestedAt fuel depth).expr least ctx rest = .ok x reached) :
    ∃ fuel depth, grammar.exprWith (grammar.nestedAt fuel depth) least ctx rest = .ok x reached := by
  cases fuel with
  | zero => cases parsed
  | succ fuel =>
    dsimp only [Grammar.nestedAt, Grammar.guarded] at parsed
    split at parsed
    · cases parsed
    · exact ⟨fuel, depth + 1, parsed⟩

theorem word_of_marker {l : Lexeme} (marker : l.synthetic = true) (rest : Rest) : Rest.word (l :: rest) = "" := by
  have other : ¬l.isWord = true := by simp [Lexeme.isWord, marker]
  rw [Rest.word, List.takeWhile_cons_of_neg other]
  rfl

theorem marker_starts_nothing {l : Lexeme} (marker : l.synthetic = true) {ctx : Context} {fuel depth : Nat} {s : Stmt}
    {reached : Rest} : (grammar.nestedAt fuel depth).statement ctx (l :: rest) ≠ .ok s reached := by
  have keyword (word : String) (named : word ≠ "") : Rest.isKeyword word (l :: rest) = false := by
    rw [Rest.isKeyword, word_of_marker marker rest]
    exact beq_eq_false_iff_ne.2 (Ne.symm named)
  have none : grammar.statements.find? (·.applies ctx (l :: rest)) = none := by
    rw [List.find?_eq_none]
    simp [grammar, memoizationRule, letRule, ifRule, whileRule, forRule, wordRule, returnRule, fnRule, outputRule,
      pushRule, assignRule, followedBy, Rest.isAnyKeyword, word_of_marker marker rest, keyword, Context.peek, marker]
  intro parsed
  obtain ⟨fuel, depth, parsed⟩ := statement_read parsed
  rw [Grammar.statementWith, none] at parsed
  cases parsed

theorem starts_word (named : Rest.word rest ≠ "") : ∃ l more, rest = l :: more ∧ l.isWord = true ∧
    l.text.toList.head? = (Rest.word rest).toList.head? := by
  have some := Walk.Moves.takeWhile_isWord_ne_nil named
  cases rest with
  | nil => exact absurd rfl some
  | cons l more =>
    by_cases here : l.isWord = true
    · refine ⟨l, more, rfl, here, ?_⟩
      have joined : (Rest.word (l :: more)).toList = l.text.toList ++ (Rest.word more).toList := by
        rw [Rest.word, Parser.toList_text, List.takeWhile_cons_of_pos here, List.flatMap_cons, Rest.word,
          Parser.toList_text]
      have nonempty : l.text.toList ≠ [] := by
        have text := here
        simp only [Lexeme.isWord, isWordText, Bool.and_eq_true, Bool.not_eq_true', String.isEmpty_eq_false_iff] at text
        exact fun empty => text.2.1 (String.toList_eq_nil_iff.1 empty)
      rw [joined, List.head?_append_of_ne_nil _ nonempty]
    · rw [List.takeWhile_cons_of_neg here] at some
      exact absurd rfl some

theorem branch_no_operand (ctx : Context) (branch : Rest.word rest ∈ branchWords) :
    grammar.operands.find? (·.applies ctx rest) = none := by
  have words : ∀ word ∈ branchWords, word ≠ "" ∧ word.toList.head? = some 'e' ∧
      word ∉ ["true", "false", "none", "extern", "not"] ∧ word ∈ reserved := by decide
  obtain ⟨named, head, other, taken⟩ := words _ branch
  obtain ⟨l, more, rfl, -, start⟩ := starts_word named
  rw [head] at start
  have symbol (text : String) (differs : text.toList.head? ≠ some 'e') : Rest.isAt text (l :: more) = false := by
    have apart : l.text ≠ text := by
      rintro rfl
      exact differs start
    simp [Rest.isAt, apart]
  have digit : Rest.isDigitStart (l :: more) = false := by
    rw [Rest.isDigitStart, start]
    exact Bool.and_false _
  rw [List.find?_eq_none]
  simp only [List.mem_cons, List.not_mem_nil, or_false, not_or] at other
  simp only [grammar, List.forall_mem_cons, numberRule_applies, stringRule_applies, constantRule_applies,
    externRule_applies, notRule_applies, negateRule_applies, groupRule_applies, arrayRule_applies,
    variableRule_applies, digit, symbol "\"" (by decide), symbol "-" (by decide), symbol "(" (by decide),
    symbol "[" (by decide)]
  simp [Rest.isKeyword, Rest.isAnyKeyword, other, taken]

theorem branch_starts_nothing {ctx : Context} (skips : ctx.skipSpace = skipSpace) (branch : Rest.word rest ∈ branchWords)
    {fuel depth : Nat} {s : Stmt} {reached : Rest} :
    (grammar.nestedAt fuel depth).statement ctx rest ≠ .ok s reached := by
  have words : ∀ word ∈ branchWords, word ≠ "" ∧ word ∉ ["MEMOIZATION", "let", "if", "while", "until", "for", "break",
      "continue", "return", "fn", "print", "write", "push"] := by decide
  obtain ⟨named, other⟩ := words _ branch
  simp only [List.mem_cons, List.not_mem_nil, or_false, not_or] at other
  obtain ⟨l, more, rfl, here, -⟩ := starts_word named
  have source : l.synthetic = false := Lexeme.isWord_kind.source l here
  have found : grammar.statements.find? (·.applies ctx (l :: more)) = some assignRule := by
    simp [grammar, memoizationRule, letRule, ifRule, whileRule, forRule, wordRule, returnRule, fnRule, outputRule,
      pushRule, assignRule, followedBy, Rest.isKeyword, Rest.isAnyKeyword, other, Context.peek, Context.atEnd, source]
  have begins : Begins l := ⟨source, Or.inl here⟩
  intro parsed
  obtain ⟨fuel, depth, parsed⟩ := statement_read parsed
  rw [Grammar.statementWith, found] at parsed
  obtain ⟨_, _, ⟨⟩, parsed⟩ := Parser.bind_eq_ok parsed
  obtain ⟨x, mid, read, -⟩ := Parser.bind_eq_ok parsed
  obtain ⟨fuel, depth, read⟩ := expr_read read
  have still : ctx.skipSpace (l :: more) = l :: more := by
    rw [skips]
    exact skipSpace_cons begins.isSpace_eq_false more
  rw [Grammar.exprWith, still, branch_no_operand ctx branch] at read
  cases read

theorem head_of_parse {ctx : Context} (skips : ctx.skipTrivia = skipTrivia {}) (plain : ctx.aliases = {})
    {x : List Stmt} (parsed : grammar.parse ctx tokens = .ok x) :
    (Rest.bare tokens).head? ≠ some (Lexeme.sign ({} : Aliases).indent) := by
  obtain ⟨reached, parsed⟩ := Grammar.parse_eq_ok.1 parsed
  intro head
  cases tokens with
  | nil => cases head
  | cons l rest =>
    have same : l.bare = Lexeme.sign ({} : Aliases).indent := Option.some.inj head
    have marker : l.synthetic = true := congrArg Lexeme.synthetic same
    have text : l.text = ({} : Aliases).indent := congrArg Lexeme.text same
    have still : ctx.skipTrivia (l :: rest) = l :: rest := by
      rw [skips, skipTrivia, List.dropWhile_cons_of_neg]
      simp [Lexeme.isSpace, isNewline, marker, text]
    rcases starts_statement parsed with ended | ⟨s, reached, read⟩
    · rw [still, Context.atEnd, plain, text, marker] at ended
      exact absurd ended (by decide)
    · rw [still] at read
      exact marker_starts_nothing marker read

theorem skipTrivia_beforeBranch {ctx : Context} (plain : ctx.aliases = {}) (rest : Rest) :
    skipTrivia {} (beforeBranch ctx rest) = skipTrivia {} rest := by
  unfold beforeBranch
  rw [plain]
  induction rest with
  | nil => rfl
  | cons l rest ih =>
    by_cases before : (isNewline {} l || (!l.synthetic && (l.text == " " || l.text == "\t"))) = true
    · have trivial : (l.isSpace false || isNewline {} l || (!l.synthetic && l.text == ";")) = true := by
        cases newline : isNewline {} l with
        | true => simp
        | false =>
          rw [newline, Bool.false_or, Bool.and_eq_true, Bool.or_eq_true, beq_iff_eq, beq_iff_eq] at before
          rcases before with ⟨source, space | tab⟩
          · simp [Lexeme.isSpace, source, space]
          · simp [Lexeme.isSpace, source, tab]
      rw [List.dropWhile_cons, if_pos before, ih, skipTrivia, skipTrivia, List.dropWhile_cons, if_pos trivial]
    · rw [List.dropWhile_cons, if_neg before]

theorem branchless_of_parse {ctx ctx' : Context} (space : ctx.skipSpace = skipSpace)
    (skips : ctx.skipTrivia = skipTrivia {}) (plain : ctx'.aliases = {}) {x : List Stmt} (parsed : grammar.parse ctx tokens = .ok x) :
    ∀ keyword ∈ branchWords, (beforeBranch ctx' (Rest.bare tokens)).isKeyword keyword = false := by
  obtain ⟨reached, parsed⟩ := Grammar.parse_eq_ok.1 parsed
  intro keyword known
  have bare : beforeBranch ctx' (Rest.bare tokens) = Rest.bare (beforeBranch ctx' tokens) :=
    Rest.dropWhile_bare _ (fun _ => rfl) tokens
  rw [bare, Rest.isKeyword_bare]
  by_contra found
  rw [Bool.not_eq_false, Rest.isKeyword, beq_iff_eq] at found
  have branch : Rest.word (beforeBranch ctx' tokens) ∈ branchWords := by rwa [found]
  have named : ∀ word ∈ branchWords, word ≠ "" := by decide
  obtain ⟨l, more, here, word, -⟩ := starts_word (named _ branch)
  rw [here] at branch
  have source := Lexeme.isWord_kind.source l word
  have begins : Begins l := ⟨source, Or.inl word⟩
  have reached : ctx.skipTrivia tokens = l :: more := by
    rw [skips, ← skipTrivia_beforeBranch plain, here, skipTrivia, List.dropWhile_cons_of_neg]
    have semicolon : isWordText ";" = false := by decide
    have apart : l.text ≠ ";" := by
      intro same
      rw [Lexeme.isWord, same, semicolon, Bool.and_false] at word
      cases word
    simp [begins.isSpace_eq_false, isNewline, source, apart]
  rcases starts_statement parsed with ended | ⟨s, reached', read⟩
  · rw [reached, Context.atEnd, source] at ended
    cases ended
  · rw [reached] at read
    exact branch_starts_nothing space branch read

/-- A stream with its front: the lexemes before its only end marker, which end
with the end of a line or of a block. -/
structure Fronted (tokens front : Rest) : Prop where
  split : Rest.bare tokens = front ++ [Lexeme.sign ({} : Aliases).endOfInput]
  closes : ∀ l ∈ front.getLast?, l.Closes
  inner : ∀ l ∈ front, ¬l.Finishes

theorem Fronted.length {front : Rest} (fronted : Fronted tokens front) : tokens.length = front.length + 1 := by
  rw [← Rest.length_bare, fronted.split, List.length_append]
  rfl

section joined

variable (file : String) (bound : Int) (whole : Rest)

/-- The parse of a stream beside the parse of the whole, of which it is a part. -/
def beside (tokens later : Rest) : Transfer where
  ctx := context tokens file bound
  walk := Walk.plain (context whole file bound) whole (2 * whole.length + 4)
  inside := Rest.Before [Lexeme.sign ({} : Aliases).endOfInput] later
  after := Rest.Upto [Lexeme.sign ({} : Aliases).endOfInput] later

theorem beside_continued (digital : Rest.Digital whole)
    (branchless : ∀ keyword ∈ branchWords, (beforeBranch (context whole file bound) later).isKeyword keyword = false) :
    Continued (beside file bound whole tokens later) later where
  counting := by
    refine ⟨Walk.plain_sound _ digital (fun _ => List.dropWhile_suffix _) fun _ => List.dropWhile_suffix _, ?_, ?_, ?_, ?_⟩
    all_goals
      intros
      trivial
  depth := rfl
  inside := rfl
  after := rfl
  skipSpace := ⟨rfl, rfl⟩
  skipTrivia := ⟨rfl, rfl⟩
  aliases := ⟨rfl, rfl⟩
  branchless := branchless

theorem part_continues (digital : Rest.Digital whole)
    (branchless : ∀ keyword ∈ branchWords, (beforeBranch (context whole file bound) later).isKeyword keyword = false)
    (shorter : tokens.length ≤ whole.length) (fuel fuel' : Nat) (done : List Stmt)
    (related : Rest.Upto [Lexeme.sign ({} : Aliases).endOfInput] later rest rest') (within : rest' <:+ whole)
    (fueled : rest'.length < fuel') {x : List Stmt} {reached : Rest}
    (parsed : Grammar.blockFrom (grammar.nestedAt (2 * tokens.length + 4) 0).statement Context.atEnd fuel []
      (context tokens file bound) rest = .ok x reached) :
    let statement := (grammar.nestedAt (2 * whole.length + 4) 0).statement
    ∃ left fuel'', Rest.bare left = skipTrivia {} later ∧ left <:+ rest' ∧ left.length < fuel'' ∧
      Grammar.blockFrom statement Context.atEnd fuel' done (context whole file bound) rest' =
        Grammar.blockFrom statement Context.atEnd fuel'' (x.reverse ++ done) (context whole file bound) left := by
  have continued : Continued (beside file bound whole tokens later) later :=
    beside_continued file bound whole digital branchless
  have moving := grammar_moving continued.counting
  have nested := Grammar.nestedAt_carries continued.aligned moving (grammar_carrying continued)
    (2 * tokens.length + 4) (2 * whole.length + 4) 0 (Nat.le_refl _) (Or.inl (by omega))
  obtain ⟨exprs, statements, parts⟩ := nested.moves
  obtain ⟨read, left, fuel'', rfl, start, suffix, enough, same⟩ := statements_continue continued nested.statement
    (parts.statement 0) fuel fuel' [] done related within fueled parsed
  exact ⟨left, fuel'', start, suffix, enough, same⟩

end joined

theorem parse_append {tokens₁ tokens₂ whole front₁ front₂ : Rest} (fronted₁ : Fronted tokens₁ front₁)
    (fronted₂ : Fronted tokens₂ front₂) (joined : Rest.bare whole = front₁ ++ Rest.bare tokens₂)
    (digital : Rest.Digital whole) {file : String} {bound : Int} {x₁ x₂ : List Stmt}
    (parsed₁ : grammar.parse (context tokens₁ file bound) tokens₁ = .ok x₁)
    (parsed₂ : grammar.parse (context tokens₂ file bound) tokens₂ = .ok x₂) :
    grammar.parse (context whole file bound) whole = .ok (x₁ ++ x₂) := by
  have branchless : ∀ keyword ∈ branchWords,
      (beforeBranch (context whole file bound) (Rest.bare tokens₂)).isKeyword keyword = false :=
    branchless_of_parse rfl rfl rfl parsed₂
  have lengths := congrArg List.length joined
  have longer₁ := fronted₁.length
  have longer₂ := fronted₂.length
  simp only [Rest.length_bare, List.length_append] at lengths
  obtain ⟨reached₁, parsed₁⟩ := Grammar.parse_eq_ok.1 parsed₁
  obtain ⟨reached₂, parsed₂⟩ := Grammar.parse_eq_ok.1 parsed₂
  have related₁ : Rest.Upto [Lexeme.sign ({} : Aliases).endOfInput] (Rest.bare tokens₂) tokens₁ whole :=
    .of_bare fronted₁.split joined fronted₁.closes fronted₁.inner
  obtain ⟨left, fuel, start, within, enough, same₁⟩ := part_continues file bound whole digital branchless (by omega)
    _ (whole.length + 1) [] related₁ List.suffix_rfl (Nat.lt_succ_self _) parsed₁
  -- The second program is read from where the first has left the whole.
  have bare : Rest.bare left = Rest.bare (skipTrivia {} tokens₂) := start.trans (Rest.dropWhile_bare _ (fun _ => rfl) _)
  have related₂ : Rest.Upto [Lexeme.sign ({} : Aliases).endOfInput] [Lexeme.sign ({} : Aliases).endOfInput]
      (skipTrivia {} tokens₂) left := by
    apply Rest.Upto.congr _ bare
    exact Rest.Upto.dropWhile (fun _ => rfl) (.of_bare fronted₂.split fronted₂.split fronted₂.closes fronted₂.inner)
  have unbranched : ∀ keyword ∈ branchWords, (beforeBranch (context whole file bound)
      [Lexeme.sign ({} : Aliases).endOfInput]).isKeyword keyword = false := by
    simp only [branchWords, List.forall_mem_cons]
    exact ⟨rfl, rfl, List.forall_mem_nil _⟩
  rw [Grammar.program, ← blockFrom_skipTrivia rfl] at parsed₂
  obtain ⟨left', fuel', start', -, enough', same₂⟩ := part_continues file bound whole digital unbranched (by omega)
    _ fuel (x₁.reverse ++ []) related₂ (within.trans List.suffix_rfl) enough parsed₂
  obtain ⟨fuel', rfl⟩ := Nat.exists_eq_succ_of_ne_zero (Nat.ne_of_gt (Nat.zero_lt_of_lt enough'))
  have ended : (context whole file bound).atEnd (skipTrivia {} left') = true := by
    have trivia : Rest.bare (skipTrivia {} left') = skipTrivia {} (Rest.bare left') :=
      (Rest.dropWhile_bare _ (fun _ => rfl) left').symm
    rw [← Context.atEnd_bare, trivia, start', skipTrivia_skipTrivia]
    rfl
  rw [Grammar.parse_eq_ok, Grammar.program, same₁, same₂]
  have stops : (context whole file bound).skipTrivia left' = skipTrivia {} left' := rfl
  refine ⟨skipTrivia {} left', ?_⟩
  simp only [Grammar.blockFrom, stops, ended, if_true]
  simp

end ScriptKernel.Lumen
