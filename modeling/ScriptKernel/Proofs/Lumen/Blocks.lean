import Mathlib
import ScriptKernel.Proofs.Lumen.Statements

/-!
Reading statements with blocks in them. The statements of a block are read one
after the other; by induction on the statement the lines of every well-formed
statement are read as that statement.
-/

namespace ScriptKernel.Lumen

open Written

open ScriptKernel.Parser (Reads)

variable {ctx : Context}

theorem length_stream_level (level other : Nat) (rest : List Line) :
    (stream level rest).length ≤ (stream other rest).length + (other - level) + (level - other) := by
  cases rest with
  | nil =>
    simp only [stream, List.length_append, List.length_replicate, List.length_cons, List.length_nil]
    omega
  | cons line rest =>
    simp only [stream, List.length_append, List.length_replicate, List.length_cons]
    omega

theorem length_stream_append (level : Nat) (lines rest : List Line) :
    (stream level rest).length + (lines.map fun line => (lexed line.text).length + 1).sum ≤
      (stream level (lines ++ rest)).length := by
  induction lines generalizing level with
  | nil => simp
  | cons line lines ih =>
    have inner := ih line.level
    have levels := length_stream_level level line.level rest
    simp only [List.cons_append, stream, List.length_append, List.length_replicate, List.length_cons,
      List.map_cons, List.sum_cons]
    omega

theorem FormedStmt.length_stream {s : Stmt} (formed : FormedStmt s) (level : Nat) (rest : List Line) :
    (stream level rest).length + 1 < (stream level (linesOf "if" level s ++ rest)).length := by
  obtain ⟨text, more, lines, fresh⟩ := formed.first level
  have total := length_stream_append level (linesOf "if" level s) rest
  obtain ⟨l, tail, written, -⟩ := fresh.opens
  rw [lines, List.map_cons, List.sum_cons, written, List.length_cons] at total
  rw [lines]
  omega

def Behind (level : Nat) (rest : List Line) (t : Rest) : Prop :=
  t = stream level rest ∨ t = .sign "NEWLINE" :: stream level rest

/-- The lines of the statement are read as it, whatever follows. -/
def ReadableStmt (ctx : Context) (s : Stmt) : Prop :=
  ∀ (level fuel depth : Nat) (rest : List Line), Follow level rest →
    (stream level (linesOf "if" level s ++ rest)).length ≤ fuel →
    ∃ t, Behind level rest t ∧
      Reads ((grammar.nestedAt fuel depth).statement) ctx (stream level (linesOf "if" level s ++ rest)) s t

theorem skipTrivia_newline (s : Rest) : skipTrivia {} (.sign "NEWLINE" :: s) = skipTrivia {} s := rfl

theorem Behind.skipTrivia {level : Nat} {rest : List Line} {t : Rest} (behind : Behind level rest t) :
    skipTrivia {} t = Lumen.skipTrivia {} (stream level rest) := by
  rcases behind with rfl | rfl
  · rfl
  · exact skipTrivia_newline _

theorem Behind.length_le {level : Nat} {rest : List Line} {t : Rest} (behind : Behind level rest t) :
    t.length ≤ (stream level rest).length + 1 := by
  rcases behind with rfl | rfl
  · exact Nat.le_succ _
  · exact Nat.le_refl _

theorem Opens.skipTrivia {s : Rest} (opens : Opens s) : skipTrivia {} s = s := by
  obtain ⟨l, rest, rfl, begins⟩ := opens
  have semicolon : (l.text == ";") = false := by
    have none : Rest.isAt ";" (l :: rest) = false :=
      begins.isAt_eq_false (by decide) (by decide) rest
    simpa [Rest.isAt, begins.source] using none
  simp [Lumen.skipTrivia, begins.isSpace_eq_false, isNewline, begins.source, semicolon]

theorem FormedStmt.opens {s : Stmt} (formed : FormedStmt s) (level : Nat) (rest : List Line) :
    Opens (stream level (linesOf "if" level s ++ rest)) := by
  obtain ⟨text, more, lines, fresh⟩ := formed.first level
  rw [lines, List.cons_append, stream_here]
  exact fresh.opens.append _

theorem reads_statements (plain : Plain ctx) {stop : Context → Rest → Bool}
    (unaware : ∀ rest : Rest, stop ctx rest.bare = stop ctx rest)
    (goesOn : ∀ s, Opens s → stop ctx s = false) {statements : List Stmt}
    (formed : ∀ s ∈ statements, FormedStmt s) (each : ∀ s ∈ statements, ReadableStmt ctx s)
    {level fuel depth : Nat} {rest : List Line} (follow : Follow level rest)
    (stops : stop ctx (skipTrivia {} (stream level rest)))
    (fueled : (stream level (linesOfAll level statements ++ rest)).length ≤ fuel) (done : List Stmt)
    {steps : Nat} (enough : (stream level (linesOfAll level statements ++ rest)).length < steps) {u : Rest}
    (written : skipTrivia {} u = skipTrivia {} (stream level (linesOfAll level statements ++ rest))) :
    Reads (Grammar.blockFrom (grammar.nestedAt fuel depth).statement stop steps done) ctx u
      (done.reverse ++ statements) (skipTrivia {} (stream level rest)) := by
  induction statements generalizing done steps u with
  | nil =>
    obtain ⟨steps, rfl⟩ : ∃ fewer, steps = fewer + 1 := ⟨steps - 1, by omega⟩
    have here : ctx.skipTrivia u = skipTrivia {} (stream level rest) := by
      rw [plain.skipTrivia]
      exact written
    have ended : Reads (Grammar.blockFrom (grammar.nestedAt fuel depth).statement stop (steps + 1) done) ctx u
        done.reverse (ctx.skipTrivia u) :=
      Grammar.reads_block_end plain.placeless unaware done (by rw [here]; exact stops)
    rwa [here, ← List.append_nil done.reverse] at ended
  | cons s more ih =>
    have formedHere := formed s List.mem_cons_self
    have formedMore : ∀ other ∈ more, FormedStmt other := fun other member =>
      formed other (List.mem_cons_of_mem s member)
    rw [linesOfAll, List.append_assoc] at fueled enough written
    have opens := formedHere.opens level (linesOfAll level more ++ rest)
    have shrinks := formedHere.length_stream level (linesOfAll level more ++ rest)
    have here : ctx.skipTrivia u = stream level (linesOf "if" level s ++ (linesOfAll level more ++ rest)) := by
      rw [plain.skipTrivia, written]
      exact opens.skipTrivia
    obtain ⟨t, behind, read⟩ := each s List.mem_cons_self level fuel depth (linesOfAll level more ++ rest)
      (follow_all formedMore follow) fueled
    have later := behind.length_le
    obtain ⟨steps, rfl⟩ : ∃ fewer, steps = fewer + 1 := ⟨steps - 1, by omega⟩
    have fewer : (stream level (linesOfAll level more ++ rest)).length < steps := by omega
    have continued := ih formedMore (fun other member => each other (List.mem_cons_of_mem s member))
      (by omega) (s :: done) fewer behind.skipTrivia
    have split : (s :: done).reverse ++ more = done.reverse ++ s :: more := by simp
    rw [split] at continued
    refine Grammar.reads_block_step plain.placeless unaware (by rw [here]; exact goesOn _ opens)
      (by rw [here]; exact atEnd_opens opens) ?_ ?_ continued
    · rw [here]
      exact read
    · rw [here]
      omega

theorem reads_body (plain : Plain ctx) {statements : List Stmt}
    (formed : ∀ s ∈ statements, FormedStmt s) (each : ∀ s ∈ statements, ReadableStmt ctx s)
    {level fuel depth : Nat} {rest : List Line} (within : Within level rest)
    (fueled : (stream level (body (level + 1) statements ++ rest)).length ≤ fuel) :
    Reads (block (grammar.nestedAt fuel depth)) ctx
      (.sign "NEWLINE" :: stream level (body (level + 1) statements ++ rest)) statements
      (stream level rest) := by
  have stop : ctx.isStructural .dedent (skipTrivia {} (stream (level + 1) rest)) := by
    rw [stream_dedent within]
    exact isStructural_sign plain .dedent rfl "DEDENT" _
  have left : skipTrivia {} (stream (level + 1) rest) = .sign "DEDENT" :: stream level rest := by
    rw [stream_dedent within]
    rfl
  -- Behind the marker that opens the block there are at least its statements.
  have opened : ∃ u, stream level (body (level + 1) statements ++ rest) = .sign "INDENT" :: u ∧
      (stream (level + 1) (linesOfAll (level + 1) statements ++ rest)).length ≤ u.length ∧
      skipTrivia {} u = skipTrivia {} (stream (level + 1) (linesOfAll (level + 1) statements ++ rest)) := by
    cases statements with
    | nil =>
      refine ⟨_, stream_indent level [';'] rest, ?_, ?_⟩
      · rw [stream_here]
        simp only [linesOfAll, List.nil_append, List.length_append, List.length_cons]
        omega
      · rw [stream_here, lexed_char (by decide), lexed_nil]
        rfl
    | cons s more =>
      obtain ⟨text, others, lines, -⟩ := (formed s List.mem_cons_self).first (level + 1)
      have same : body (level + 1) (s :: more) = linesOfAll (level + 1) (s :: more) := rfl
      refine ⟨stream (level + 1) (linesOfAll (level + 1) (s :: more) ++ rest), ?_, Nat.le_refl _, rfl⟩
      rw [same, linesOfAll, lines]
      exact stream_indent level text _
  obtain ⟨u, written, longer, trivia⟩ := opened
  rw [written] at fueled ⊢
  rw [List.length_cons] at fueled
  refine reads_block plain ?_
  rw [← left]
  rintro input rfl
  rw [Rest.length_bare] at fueled longer
  exact reads_statements plain (fun rest => ctx.isStructural_bare .dedent rest)
    (fun s opens => isStructural_opens rfl opens) formed each (Follow.within_inner within) stop
    (by omega) [] (by omega) trivia input rfl

theorem readable_line (plain : Plain ctx) (rule : Statement) {s : Stmt} {text : List Char}
    (lines : ∀ level, linesOf "if" level s = [⟨level, text⟩])
    (found : ∀ u, grammar.statements.find? (·.applies ctx (lexed text ++ .sign "NEWLINE" :: u)) = some rule)
    (parsed : ∀ fuel depth u, (lexed text).length < fuel →
      Reads (rule.parse (grammar.nestedAt fuel depth)) ctx (lexed text ++ .sign "NEWLINE" :: u) s
        (.sign "NEWLINE" :: u)) : ReadableStmt ctx s := by
  intro level fuel depth rest follow fueled
  refine ⟨_, Or.inr rfl, ?_⟩
  rw [lines, List.singleton_append, stream_here] at fueled ⊢
  have positive := length_stream_pos level rest
  simp only [List.length_append, List.length_cons] at fueled
  obtain ⟨fuel, rfl⟩ : ∃ fewer, fuel = fewer + 1 := ⟨fuel - 1, by omega⟩
  exact reads_rule plain (found _) (parsed fuel (depth + 1) _ (by omega))

theorem readable_compound (plain : Plain ctx) (rule : Statement) {s : Stmt} {text : List Char}
    {statements : List Stmt} (formed : ∀ s ∈ statements, FormedStmt s)
    (each : ∀ s ∈ statements, ReadableStmt ctx s)
    (lines : ∀ level, linesOf "if" level s = ⟨level, text⟩ :: body (level + 1) statements)
    (found : ∀ u, grammar.statements.find? (·.applies ctx (lexed text ++ .sign "NEWLINE" :: u)) = some rule)
    (parsed : ∀ fuel depth u t, (lexed text).length < fuel →
      Reads (block (grammar.nestedAt fuel depth)) ctx (.sign "NEWLINE" :: u) statements t →
      Reads (rule.parse (grammar.nestedAt fuel depth)) ctx (lexed text ++ .sign "NEWLINE" :: u) s t) :
    ReadableStmt ctx s := by
  intro level fuel depth rest follow fueled
  refine ⟨_, Or.inl rfl, ?_⟩
  rw [lines, List.cons_append, stream_here] at fueled ⊢
  have positive := length_stream_pos level (body (level + 1) statements ++ rest)
  simp only [List.length_append, List.length_cons] at fueled
  obtain ⟨fuel, rfl⟩ : ∃ fewer, fuel = fewer + 1 := ⟨fuel - 1, by omega⟩
  refine reads_rule plain (found _) (parsed fuel (depth + 1) _ _ (by omega) ?_)
  exact reads_body plain formed each follow.within (by omega)

theorem reads_while (plain : Plain ctx) {word : List Char} (wordlike : ∀ c ∈ word, Text.isWordChar c)
    {test : Expr} (formed : FormedExpr test) {statements : List Stmt} {fuel depth : Nat} {u t : Rest}
    (fueled : (lexed (spell test)).length < fuel)
    (inside : Reads (block (grammar.nestedAt fuel depth)) ctx (.sign "NEWLINE" :: u) statements t) :
    Reads (whileRule.parse (grammar.nestedAt fuel depth)) ctx
      (letters word ++ .source " " :: (lexed (spell test) ++ .sign "NEWLINE" :: u))
      (.whileLoop test statements (String.ofList word == "until")) t := by
  refine (reads_letters wordlike (clear_symbol (by decide) (by decide) _)).bind ?_
  refine (formed.reads_behind plain fueled).bind ?_
  exact inside.bind (Reads.pure _ _)

theorem reads_for (plain : Plain ctx) {name : String} (valid : IsName name) {items : Expr}
    (formed : FormedExpr items) {statements : List Stmt} {fuel depth : Nat} {u t : Rest}
    (fueled : (lexed (spell items)).length < fuel)
    (inside : Reads (block (grammar.nestedAt fuel depth)) ctx (.sign "NEWLINE" :: u) statements t) :
    Reads (forRule.parse (grammar.nestedAt fuel depth)) ctx
      (letters "for".toList ++ .source " " :: (letters name.toList ++ .source " " ::
        (letters "in".toList ++ .source " " :: (lexed (spell items) ++ .sign "NEWLINE" :: u))))
      (.forEach name items statements) t := by
  have blank (s : Rest) : Clear (.source " " :: s) := clear_symbol (by decide) (by decide) s
  have opens (s : Rest) : skipSpace (.source " " :: (letters name.toList ++ s)) = letters name.toList ++ s :=
    ((opens_letters valid.ne_nil valid.wordChars).append s).skipSpace
  have inOpens (s : Rest) : skipSpace (.source " " :: (letters "in".toList ++ s)) = letters "in".toList ++ s :=
    ((opens_letters (by decide) (by decide)).append s).skipSpace
  have seen (s : Rest) : Rest.word (letters "in".toList ++ .source " " :: s) = "in" :=
    word_letters (by decide) (blank s)
  have keyword (s : Rest) : Reads (Parser.expectKeyword "in") ctx (letters "in".toList ++ .source " " :: s) ()
      (.source " " :: s) := by
    have read : Reads (Parser.expectKeyword "in") ctx _ _ _ := Reads.expectKeyword (seen s)
    rwa [afterWord_letters (by decide) (blank s)] at read
  refine (reads_letters (by decide) (blank _)).bind ?_
  refine (reads_skipSpace plain _).bind ?_
  rw [opens]
  refine (reads_name valid (blank _)).bind ?_
  refine (reads_skipSpace plain _).bind ?_
  rw [inOpens]
  refine (keyword _).bind ?_
  refine (formed.reads_behind plain fueled).bind ?_
  exact inside.bind (Reads.pure _ _)

theorem reads_parameter {param : String} (valid : IsName param) {known : List String}
    (fresh : param ∉ known) {s : Rest} (clear : Clear s) :
    Reads (parameter known) ctx (letters param.toList ++ s) param s := by
  refine Reads.location fun place => ?_
  refine (reads_name valid clear).bind ?_
  have new : known.contains param = false := by simpa using fresh
  rw [new]
  exact Reads.pure param s

theorem reads_parameters (plain : Plain ctx) {params : List String}
    (names : ∀ param ∈ params, IsName param) (distinct : params.Nodup) (s : Rest) :
    Reads (Parser.list "," ")" parameter) ctx
      (listed (params.map fun param => letters param.toList) ++ .source ")" :: s) params s := by
  have opens (param : String) (member : param ∈ params) (t : Rest) : Opens (letters param.toList ++ t) :=
    (opens_letters (names param member).ne_nil (names param member).wordChars).append t
  have form : Parser.ListForm ctx "," ")" parameter (fun param => letters param.toList) [] params := by
    constructor
    · intro param member t
      rw [plain.skipSpace]
      exact ⟨(opens param member t).skipSpace, (opens param member t).isAt_eq_false (by decide) (by decide)⟩
    · intro before param after t split _ here
      rw [List.nil_append] at split
      have member : param ∈ params := by simp [split]
      have fresh : param ∉ before := by
        rw [split, List.nodup_append] at distinct
        exact fun earlier => distinct.2.2 param earlier param List.mem_cons_self rfl
      have ends : Ends ctx t := by
        rcases here with comma | closed
        · exact ends_closer plain (by decide) comma
        · exact ends_closer plain (by decide) closed
      exact reads_parameter (names param member) fresh ends.clear
  have still : ∀ text ∈ [",", ")"], ∀ t, ctx.skipSpace (.source text :: t) = .source text :: t := by
    intro text member t
    rw [plain.skipSpace]
    rcases List.mem_pair.mp member with rfl | rfl
    · exact skipSpace_symbol (by decide) (by decide) t
    · exact skipSpace_symbol (by decide) (by decide) t
  have solid : ctx.skipSpace (listed (params.map fun param => letters param.toList) ++ .source ")" :: s) =
      listed (params.map fun param => letters param.toList) ++ .source ")" :: s := by
    match params with
    | [] => exact still ")" (by decide) s
    | [param] => rw [plain.skipSpace]; exact (opens param (by simp) _).skipSpace
    | param :: next :: more =>
      rw [plain.skipSpace]
      simp only [listed, List.map_cons, Rest.joined, List.append_assoc]
      exact (opens param (by simp) _).skipSpace
  refine Parser.reads_list plain.placeless.toPlaceless (by decide) ?_ still params form _ s ?_ solid
  · intro t
    rw [plain.skipSpace]
    rfl
  · have fewer := Rest.length_joined [.source ",", .source " "]
      (params.map fun param => letters param.toList) (by decide)
    simp only [listed, List.length_append, List.length_cons, List.length_map] at fewer ⊢
    omega

theorem reads_fn (plain : Plain ctx) {name : String} (valid : IsName name) {params : List String}
    (names : ∀ param ∈ params, IsName param) (distinct : params.Nodup) {statements : List Stmt}
    {fuel depth : Nat} {u t : Rest}
    (inside : Reads (block (grammar.nestedAt fuel depth)) ctx (.sign "NEWLINE" :: u) statements t) :
    Reads (fnRule.parse (grammar.nestedAt fuel depth)) ctx
      (letters "fn".toList ++ .source " " :: (letters name.toList ++ .source "(" ::
        (listed (params.map fun param => letters param.toList) ++ .source ")" :: .sign "NEWLINE" :: u)))
      (.declare 0 name params statements) t := by
  have opens (s : Rest) : skipSpace (.source " " :: (letters name.toList ++ s)) = letters name.toList ++ s :=
    ((opens_letters valid.ne_nil valid.wordChars).append s).skipSpace
  refine (reads_letters (by decide) (clear_symbol (by decide) (by decide) _)).bind ?_
  refine (reads_skipSpace plain _).bind ?_
  rw [opens]
  refine (reads_name valid (clear_symbol (by decide) (by decide) _)).bind ?_
  refine (reads_skipSpace plain _).bind ?_
  refine Reads.expect (isAtAny_singleton "(" _) fun _ _ => ?_
  refine (reads_parameters plain names distinct _).bind ?_
  exact inside.bind (Reads.pure _ _)

theorem beforeBranch_bare (rest : Rest) : beforeBranch ctx rest.bare = (beforeBranch ctx rest).bare :=
  Rest.dropWhile_bare _ (fun _ => rfl) rest

theorem Opens.beforeBranch {s : Rest} (opens : Opens s) : beforeBranch ctx s = s := by
  obtain ⟨l, rest, rfl, begins⟩ := opens
  have noBlank : ∀ text ∈ [" ", "\t"], (l.text == text) = false := by
    intro text member
    have other : isWordText text = false ∧ text ∉ ["(", "[", "-", "\""] := by
      have all : ∀ text ∈ [" ", "\t"], isWordText text = false ∧ text ∉ ["(", "[", "-", "\""] := by
        decide
      exact all text member
    have none := begins.isAt_eq_false other.1 other.2 rest
    simpa [Rest.isAt, begins.source] using none
  simp [Lumen.beforeBranch, isNewline, begins.source, noBlank " " (by decide), noBlank "\t" (by decide)]

theorem beforeBranch_sign (plain : Plain ctx) {text : String} (other : text ≠ "NEWLINE") (s : Rest) :
    beforeBranch ctx (.sign text :: s) = .sign text :: s := by
  simp [beforeBranch, isNewline, plain.aliases, other]

theorem Follow.noBranch (plain : Plain ctx) {level : Nat} {rest : List Line} (follow : Follow level rest) :
    (beforeBranch ctx (stream level rest)).word ∉ ["elif", "else"] := by
  have closed (s : Rest) : (beforeBranch ctx (.sign "DEDENT" :: s)).word ∉ ["elif", "else"] := by
    rw [beforeBranch_sign plain (by decide), word_sign]
    decide
  cases level with
  | succ level =>
    by_cases within : Within level rest
    · rw [stream_dedent within]
      exact closed _
    · cases rest with
      | nil => exact absurd (follow_nil level).within within
      | cons line rest =>
        have here : line.level = level + 1 := by
          have le := follow.within line rfl
          by_contra other
          exact within (by rintro _ ⟨⟩; omega)
        have fresh := follow.fresh line rfl here
        obtain ⟨lineLevel, text⟩ := line
        cases here
        rw [stream_here, (fresh.opens.append _).beforeBranch]
        exact fresh.noBranch _
  | zero =>
    cases rest with
    | nil =>
      change (beforeBranch ctx (.sign "EOF" :: [])).word ∉ _
      rw [beforeBranch_sign plain (by decide), word_sign]
      decide
    | cons line rest =>
      have here : line.level = 0 := Nat.le_zero.mp (follow.within line rfl)
      have fresh := follow.fresh line rfl here
      obtain ⟨lineLevel, text⟩ := line
      cases here
      rw [stream_here, (fresh.opens.append _).beforeBranch]
      exact fresh.noBranch _

def ReadableBranch (ctx : Context) (s : Stmt) : Prop :=
  ∀ keyword ∈ ["if", "elif"], ∀ (level fuel depth steps : Nat) (rest : List Line), Follow level rest →
    (stream level (linesOf keyword level s ++ rest)).length ≤ fuel + 1 →
    (stream level (linesOf keyword level s ++ rest)).length ≤ steps →
    Reads (branches (grammar.nestedAt fuel depth) steps) ctx (stream level (linesOf keyword level s ++ rest)) s
      (stream level rest)

theorem within_otherwise {level : Nat} {rest : List Line} (within : Within level rest) (no : List Stmt) :
    Within level (otherwise level no ++ rest) := by
  rcases otherwise_cases level no with ⟨-, none⟩ | ⟨test, yes, more, -, elif⟩ | other
  · rw [none]
    exact within
  · rw [elif]
    rintro _ ⟨⟩
    exact Nat.le_refl level
  · rw [other]
    rintro _ ⟨⟩
    exact Nat.le_refl level

theorem reads_branch (plain : Plain ctx) {test : Expr} {yes no : List Stmt} (formed : FormedExpr test)
    (yesFormed : ∀ s ∈ yes, FormedStmt s) (yesReads : ∀ s ∈ yes, ReadableStmt ctx s)
    (noFormed : ∀ s ∈ no, FormedStmt s) (noReads : ∀ s ∈ no, ReadableStmt ctx s)
    (further : ∀ test yes more, no = [.cond test yes more] → ReadableBranch ctx (.cond test yes more)) :
    ReadableBranch ctx (.cond test yes no) := by
  intro keyword known level fuel depth steps rest follow fueled enough
  have wordlike : ∀ c ∈ keyword.toList, Text.isWordChar c := by
    have all : ∀ keyword ∈ ["if", "elif"], ∀ c ∈ keyword.toList, Text.isWordChar c := by decide
    exact all keyword known
  have written : stream level (linesOf keyword level (.cond test yes no) ++ rest) =
      letters keyword.toList ++ .source " " :: (lexed (spell test) ++
        .sign "NEWLINE" :: stream level (body (level + 1) yes ++ (otherwise level no ++ rest))) := by
    change stream level (⟨level, keyword.toList ++ ' ' :: spell test⟩ ::
      ((body (level + 1) yes ++ otherwise level no) ++ rest)) = _
    rw [stream_here, lexed_keyword wordlike, List.append_assoc, List.append_assoc, List.cons_append]
  have shrinks := length_stream_append level (body (level + 1) yes) (otherwise level no ++ rest)
  rw [written] at fueled enough ⊢
  simp only [List.length_append, List.length_cons] at fueled enough
  obtain ⟨steps, rfl⟩ : ∃ fewer, steps = fewer + 1 := ⟨steps - 1, by omega⟩
  refine (reads_letters wordlike (clear_symbol (by decide) (by decide) _)).bind ?_
  refine (formed.reads_behind plain (by omega)).bind ?_
  refine (reads_body plain yesFormed yesReads (within_otherwise follow.within no) (by omega)).bind ?_
  have seen (word : String) (s : Rest) : Reads (Parser.look fun ctx rest => (beforeBranch ctx rest).isKeyword word)
      ctx s ((beforeBranch ctx s).isKeyword word) s :=
    Reads.look (f := fun ctx rest => (beforeBranch ctx rest).isKeyword word) (by simp [beforeBranch_bare])
  rcases otherwise_cases level no with ⟨rfl, none⟩ | ⟨test', yes', more, rfl, elif⟩ | other
  · -- No branch follows.
    rw [none, List.nil_append]
    have noBranch := follow.noBranch plain
    have noElif : (beforeBranch ctx (stream level rest)).isKeyword "elif" = false := by
      rw [Rest.isKeyword, beq_eq_false_iff_ne]
      exact fun same => noBranch (by simp [same])
    have noElse : (beforeBranch ctx (stream level rest)).isKeyword "else" = false := by
      rw [Rest.isKeyword, beq_eq_false_iff_ne]
      exact fun same => noBranch (by simp [same])
    refine (seen "elif" _).bind ?_
    rw [noElif]
    refine (seen "else" _).bind ?_
    rw [noElse]
    exact Reads.pure _ _
  · -- A further condition.
    have inner := further test' yes' more rfl "elif" (by decide) level fuel depth steps rest follow
    rw [← elif] at inner
    have elifWritten : ∃ u, stream level (otherwise level [.cond test' yes' more] ++ rest) =
        letters "elif".toList ++ .source " " :: u := by
      rw [elif]
      change ∃ u, stream level (⟨level, "elif".toList ++ ' ' :: spell test'⟩ :: _) = _
      rw [stream_here, lexed_keyword (by decide), List.append_assoc, List.cons_append]
      exact ⟨_, rfl⟩
    obtain ⟨u, elifWritten⟩ := elifWritten
    have still : beforeBranch ctx (letters "elif".toList ++ .source " " :: u) =
        letters "elif".toList ++ .source " " :: u :=
      ((opens_letters (by decide) (by decide)).append _).beforeBranch
    have isElif : (beforeBranch ctx (letters "elif".toList ++ .source " " :: u)).isKeyword "elif" = true := by
      rw [still, Rest.isKeyword, word_letters (by decide) (clear_symbol (by decide) (by decide) _)]
      rfl
    have branch := inner (by omega) (by omega)
    rw [elifWritten] at branch ⊢
    refine (seen "elif" _).bind ?_
    rw [isElif]
    refine Reads.bind (a := .cond test' yes' more) ?_ (Reads.pure _ _)
    rintro input same
    refine branch (beforeBranch ctx input) ?_
    rw [← beforeBranch_bare, same, still]
  · -- Any other alternative.
    have elseWritten : stream level (otherwise level no ++ rest) = letters "else".toList ++
        .sign "NEWLINE" :: stream level (body (level + 1) no ++ rest) := by
      rw [other, List.cons_append, stream_here, lexed_word (by decide)]
    have still (u : Rest) : beforeBranch ctx (letters "else".toList ++ .sign "NEWLINE" :: u) =
        letters "else".toList ++ .sign "NEWLINE" :: u :=
      ((opens_letters (by decide) (by decide)).append _).beforeBranch
    have word (u : Rest) : Rest.word (letters "else".toList ++ .sign "NEWLINE" :: u) = "else" :=
      word_letters (by decide) (clear_sign "NEWLINE" u)
    have after (u : Rest) : Rest.afterWord (letters "else".toList ++ .sign "NEWLINE" :: u) =
        .sign "NEWLINE" :: u :=
      afterWord_letters (by decide) (clear_sign "NEWLINE" u)
    rw [elseWritten] at shrinks ⊢
    simp only [List.length_append, List.length_cons] at shrinks
    refine (seen "elif" _).bind ?_
    rw [still, Rest.isKeyword, word]
    refine (seen "else" _).bind ?_
    rw [still, Rest.isKeyword, word]
    refine Reads.bind (a := ()) (t := .sign "NEWLINE" :: stream level (body (level + 1) no ++ rest)) ?_ ?_
    · intro input same
      refine ⟨(beforeBranch ctx input).afterWord, rfl, ?_⟩
      rw [← Rest.afterWord_bare, ← beforeBranch_bare, same, still, after]
    refine ((ends_sign plain "NEWLINE" _).reads_skipSpace plain).bind ?_
    refine (Reads.look (Rest.isKeyword_bare "if")).bind ?_
    rw [Rest.isKeyword, word_sign]
    refine (reads_body plain noFormed noReads follow.within (by omega)).bind ?_
    exact Reads.pure _ _

theorem readable_cond (plain : Plain ctx) {test : Expr} {yes no : List Stmt}
    (branch : ReadableBranch ctx (.cond test yes no)) : ReadableStmt ctx (.cond test yes no) := by
  intro level fuel depth rest follow fueled
  refine ⟨_, Or.inl rfl, ?_⟩
  have written : ∃ u, stream level (linesOf "if" level (.cond test yes no) ++ rest) =
      letters "if".toList ++ .source " " :: u := by
    change ∃ u, stream level (⟨level, "if".toList ++ ' ' :: spell test⟩ :: _) = _
    rw [stream_here, lexed_keyword (by decide), List.append_assoc, List.cons_append]
    exact ⟨_, rfl⟩
  have positive := length_stream_pos level (linesOf "if" level (.cond test yes no) ++ rest)
  obtain ⟨fuel, rfl⟩ : ∃ fewer, fuel = fewer + 1 := ⟨fuel - 1, by omega⟩
  refine reads_rule plain ((find_keyword _).2.1 ?_) ?_
  · obtain ⟨u, written⟩ := written
    rw [written]
    exact word_letters (by decide) (clear_symbol (by decide) (by decide) u)
  · rintro input same
    have length : (stream level (linesOf "if" level (.cond test yes no) ++ rest)).length = input.length := by
      rw [← same, Rest.length_bare]
    exact branch "if" (by decide) level fuel (depth + 1) (input.length + 1) rest follow fueled
      (by omega) input same

theorem find_phrase (plain : Plain ctx) {p : Precedence} {x : Expr} {shape : Rest}
    (phrase : Phrase p x shape) {s : Rest} (clear : Clear s)
    (apart : ∀ pair ∈ openings, shape = letters pair.1.toList → Rest.isAt pair.2 (skipSpace s) = false) :
    grammar.statements.find? (·.applies ctx (shape ++ s)) = some assignRule := by
  refine find_assign (phrase.opens.append s) (phrase.word_notMem clear) ?_
  rintro ⟨word, next⟩ opening
  rcases phrase.not_followedBy plain opening with same | never
  · rw [same, followedBy_letters plain (wordChars_opening opening) clear]
    exact apart (word, next) opening same
  · exact never s clear

theorem readable_expr (plain : Plain ctx) {x : Expr} (formed : FormedExpr x) :
    ReadableStmt ctx (.expr x) := by
  refine readable_line plain assignRule (fun _ => rfl) (fun u => ?_)
    (fun fuel depth u fueled => reads_expression plain formed fueled)
  exact find_phrase plain formed.phrase (clear_sign "NEWLINE" u) fun _ _ _ => rfl

theorem readable_assignment (plain : Plain ctx) {p : Precedence} {left x : Expr} {shape : Rest}
    {s : Stmt} {text : List Char} (phrase : Phrase p left shape) (formed : FormedExpr x)
    (other : shape ≠ letters "MEMOIZATION".toList) (assigns : assignment? left x = some s)
    (lines : ∀ level, linesOf "if" level s = [⟨level, text⟩])
    (written : lexed text =
      shape ++ .source " " :: .source "=" :: .source " " :: lexed (spell x)) : ReadableStmt ctx s := by
  have blank (u : Rest) : Clear (.source " " :: u) := clear_symbol (by decide) (by decide) u
  refine readable_line plain assignRule lines (fun u => ?_) (fun fuel depth u fueled => ?_)
  · rw [written, List.append_assoc]
    refine find_phrase plain phrase (blank _) ?_
    intro pair opening same
    simp only [openings, List.mem_cons, List.not_mem_nil, or_false] at opening
    rcases opening with rfl | rfl | rfl | rfl
    · exact absurd same other
    all_goals rfl
  · rw [written] at fueled ⊢
    simp only [List.length_append, List.length_cons] at fueled
    simp only [List.append_assoc, List.cons_append]
    exact reads_assignment plain phrase formed assigns (by omega) (by omega)

theorem readable_assign (plain : Plain ctx) {name : String} {x : Expr} (valid : IsName name)
    (formed : FormedExpr x) : ReadableStmt ctx (.assign name x true) := by
  have written := lexed_assigned (target name) (spell x)
  have noParen : Lexeme.source "(" ∉ letters "MEMOIZATION".toList := by decide
  rw [lexed_target valid] at written
  split at written
  · exact readable_assignment plain (Phrase.group (Phrase.var valid)) formed
      (fun same => noParen (same ▸ List.mem_cons_self)) rfl (fun _ => rfl) written
  · next other =>
    refine readable_assignment plain (Phrase.var valid) formed ?_ rfl (fun _ => rfl) written
    exact fun same => other (String.toList_inj.mp (letters_injective same))

theorem readable_setItem (plain : Plain ctx) {name : String} {position x : Expr} (valid : IsName name)
    (inner : FormedExpr position) (formed : FormedExpr x) : ReadableStmt ctx (.setItem name position x) := by
  have written := lexed_setItem valid (spell position) (spell x)
  refine readable_assignment plain (Phrase.index le_rfl (Phrase.var valid) inner.phrase) formed ?_ rfl
    (fun _ => rfl) written
  have noBracket : Lexeme.source "[" ∉ letters "MEMOIZATION".toList := by decide
  exact fun same => noBracket (same ▸ by simp)

theorem FormedStmt.readable (plain : Plain ctx) {s : Stmt} (formed : FormedStmt s) :
    ReadableStmt ctx s ∧ ∀ test yes no, s = .cond test yes no → ReadableBranch ctx s := by
  have blank (u : Rest) : Clear (.source " " :: u) := clear_symbol (by decide) (by decide) u
  have newline (u : Rest) : Clear (.sign "NEWLINE" :: u) := clear_sign "NEWLINE" u
  induction formed with
  | expr formed => exact ⟨readable_expr plain formed, by simp⟩
  | @define name x valid formed =>
    refine ⟨readable_line plain letRule (fun _ => rfl) (fun u => ?_) (fun fuel depth u fueled => ?_), by simp⟩
    · rw [lexed_let valid, List.append_assoc, List.cons_append]
      exact (find_keyword _).1 (word_letters (by decide) (blank _))
    · rw [lexed_let valid] at fueled ⊢
      simp only [List.length_append, List.length_cons] at fueled
      simp only [List.append_assoc, List.cons_append]
      exact reads_define plain valid formed (by omega)
  | assign valid formed => exact ⟨readable_assign plain valid formed, by simp⟩
  | cond formed yesFormed noFormed ihYes ihNo =>
    have branch := reads_branch plain formed yesFormed (fun s member => (ihYes s member).1) noFormed
      (fun s member => (ihNo s member).1) (fun test yes more same =>
        (ihNo (.cond test yes more) (by simp [same])).2 test yes more rfl)
    exact ⟨readable_cond plain branch, fun _ _ _ _ => branch⟩
  | @whileLoop test body formed each negated ih =>
    refine ⟨?_, by simp⟩
    have reads (word : List Char) (wordlike : ∀ c ∈ word, Text.isWordChar c)
        (keyword : String.ofList word ∈ ["while", "until"])
        (lines : ∀ level, linesOf "if" level
          (.whileLoop test body (String.ofList word == "until")) =
            ⟨level, word ++ ' ' :: spell test⟩ :: Lumen.body (level + 1) body) :
        ReadableStmt ctx (.whileLoop test body (String.ofList word == "until")) := by
      refine readable_compound plain whileRule each (fun s member => (ih s member).1) lines
        (fun u => ?_) (fun fuel depth u t fueled inside => ?_)
      · rw [lexed_keyword wordlike, List.append_assoc, List.cons_append]
        refine (find_keyword _).2.2.1 ?_
        rwa [word_letters wordlike (blank _)]
      · rw [lexed_keyword wordlike] at fueled ⊢
        simp only [List.length_append, List.length_cons] at fueled
        simp only [List.append_assoc, List.cons_append]
        exact reads_while plain wordlike formed (by omega) inside
    cases negated with
    | false => exact reads "while".toList (by decide) (by decide) fun _ => rfl
    | true => exact reads "until".toList (by decide) (by decide) fun _ => rfl
  | @forEach name items body valid formed each ih =>
    refine ⟨readable_compound plain forRule each (fun s member => (ih s member).1) (fun _ => rfl)
      (fun u => ?_) (fun fuel depth u t fueled inside => ?_), by simp⟩
    · rw [lexed_for valid, List.append_assoc, List.cons_append]
      exact (find_keyword _).2.2.2.1 (word_letters (by decide) (blank _))
    · rw [lexed_for valid] at fueled ⊢
      simp only [List.length_append, List.length_cons] at fueled
      simp only [List.append_assoc, List.cons_append]
      exact reads_for plain valid formed (by omega) inside
  | breakLoop =>
    have written : lexed "break".toList = letters "break".toList := lexed_word (by decide)
    refine ⟨readable_line plain (wordRule "break" .breakLoop) (fun _ => rfl) (fun u => ?_)
      (fun fuel depth u fueled => ?_), by simp⟩
    · rw [written]
      exact (find_keyword _).2.2.2.2.1 (word_letters (by decide) (newline _))
    · rw [written]
      exact reads_word plain (by decide) _
  | continueLoop =>
    have written : lexed "continue".toList = letters "continue".toList := lexed_word (by decide)
    refine ⟨readable_line plain (wordRule "continue" .continueLoop) (fun _ => rfl) (fun u => ?_)
      (fun fuel depth u fueled => ?_), by simp⟩
    · rw [written]
      exact (find_keyword _).2.2.2.2.2.1 (word_letters (by decide) (newline _))
    · rw [written]
      exact reads_word plain (by decide) _
  | returnNone =>
    have written : lexed "return".toList = letters "return".toList := lexed_word (by decide)
    refine ⟨readable_line plain returnRule (fun _ => rfl) (fun u => ?_) (fun fuel depth u fueled => ?_), by simp⟩
    · rw [written]
      exact (find_keyword _).2.2.2.2.2.2.1 (word_letters (by decide) (newline _))
    · rw [written]
      exact reads_returnNone plain
  | @returnSome x formed =>
    have written : lexed ("return ".toList ++ spell x) = _ := @lexed_keyword "return".toList (by decide) (spell x)
    refine ⟨readable_line plain returnRule (fun _ => rfl) (fun u => ?_) (fun fuel depth u fueled => ?_), by simp⟩
    · rw [written, List.append_assoc, List.cons_append]
      exact (find_keyword _).2.2.2.2.2.2.1 (word_letters (by decide) (blank _))
    · rw [written] at fueled ⊢
      simp only [List.length_append, List.length_cons] at fueled
      simp only [List.append_assoc, List.cons_append]
      exact reads_returnSome plain formed (by omega)
  | @declare name params body valid names distinct each ih =>
    refine ⟨readable_compound plain fnRule each (fun s member => (ih s member).1) (fun _ => rfl)
      (fun u => ?_) (fun fuel depth u t fueled inside => ?_), by simp⟩
    · rw [lexed_fn valid names, List.append_assoc, List.cons_append]
      exact (find_keyword _).2.2.2.2.2.2.2 (word_letters (by decide) (blank _))
    · rw [lexed_fn valid names]
      simp only [enclosed, List.append_assoc, List.cons_append, List.nil_append]
      exact reads_fn plain valid names distinct inside
  | setItem valid inner formed => exact ⟨readable_setItem plain valid inner formed, by simp⟩
  | @push array x first second =>
    refine ⟨readable_line plain pushRule (fun _ => rfl) (fun u => ?_) (fun fuel depth u fueled => ?_), by simp⟩
    · rw [lexed_push, List.append_assoc]
      refine find_push ((followedBy_letters plain (by decide) ?_).trans rfl)
      exact clear_symbol (by decide) (by decide) _
    · rw [lexed_push] at fueled ⊢
      simp only [enclosed, List.length_append, List.length_cons] at fueled
      simp only [enclosed, List.append_assoc, List.cons_append, List.nil_append]
      exact reads_push plain first second (by omega)
  | memoize on =>
    refine ⟨readable_line plain memoizationRule (fun _ => rfl) (fun u => ?_) (fun fuel depth u fueled => ?_), by simp⟩
    · rw [lexed_memoize, List.append_assoc]
      exact find_memoization ((followedBy_letters plain (by decide) (blank _)).trans rfl)
    · rw [lexed_memoize]
      simp only [List.append_assoc, List.cons_append]
      exact reads_memoize plain on

theorem reads_program (plain : Plain ctx) {program : List Stmt} (formed : ∀ s ∈ program, FormedStmt s) :
    Reads grammar.program ctx (stream 0 (linesOfAll 0 program)) program [.sign "EOF"] := by
  rintro input same
  have length : (stream 0 (linesOfAll 0 program)).length = input.length := by
    rw [← same, Rest.length_bare]
  have atEnd : ctx.atEnd (skipTrivia {} (stream 0 [])) = true := by
    change ctx.atEnd [.sign "EOF"] = true
    simp [Context.atEnd, plain.aliases]
  have read : Reads (Grammar.blockFrom (grammar.nestedAt (2 * input.length + 4) 0).statement Context.atEnd
      (input.length + 1) []) ctx (stream 0 (linesOfAll 0 program)) program [.sign "EOF"] :=
    reads_statements plain (fun rest => ctx.atEnd_bare rest) (fun s opens => atEnd_opens opens)
      formed (fun s member => ((formed s member).readable plain).1) (follow_nil 0) atEnd
      (by rw [List.append_nil]; omega) [] (by rw [List.append_nil]; omega) (by rw [List.append_nil])
  exact read input same

end ScriptKernel.Lumen
