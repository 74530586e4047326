import ScriptKernel.Proofs.Lumen.Openings

/-!
Statements as lines, and lines as the parser sees them: cut into lexemes, with
a marker behind each line and markers where blocks open and close.
-/

namespace ScriptKernel.Lumen

open Written

inductive FormedStmt : Stmt → Prop
  | expr {x : Expr} (formed : FormedExpr x) : FormedStmt (.expr x)
  | define {name : String} {x : Expr} (valid : IsName name) (formed : FormedExpr x) :
      FormedStmt (.define name x)
  | assign {name : String} {x : Expr} (valid : IsName name) (formed : FormedExpr x) :
      FormedStmt (.assign name x true)
  | cond {test : Expr} {yes no : List Stmt} (formed : FormedExpr test)
      (then_ : ∀ s ∈ yes, FormedStmt s) (else_ : ∀ s ∈ no, FormedStmt s) :
      FormedStmt (.cond test yes no)
  | whileLoop {test : Expr} {body : List Stmt} (formed : FormedExpr test)
      (each : ∀ s ∈ body, FormedStmt s) (negated : Bool) : FormedStmt (.whileLoop test body negated)
  | forEach {name : String} {items : Expr} {body : List Stmt} (valid : IsName name)
      (formed : FormedExpr items) (each : ∀ s ∈ body, FormedStmt s) :
      FormedStmt (.forEach name items body)
  | breakLoop : FormedStmt .breakLoop
  | continueLoop : FormedStmt .continueLoop
  | returnNone : FormedStmt (.returnWith none)
  | returnSome {x : Expr} (formed : FormedExpr x) : FormedStmt (.returnWith (some x))
  | declare {name : String} {params : List String} {body : List Stmt} (valid : IsName name)
      (names : ∀ param ∈ params, IsName param) (distinct : params.Nodup)
      (each : ∀ s ∈ body, FormedStmt s) : FormedStmt (.declare 0 name params body)
  | setItem {name : String} {position x : Expr} (valid : IsName name)
      (inner : FormedExpr position) (formed : FormedExpr x) : FormedStmt (.setItem name position x)
  | push {array x : Expr} (first : FormedExpr array) (second : FormedExpr x) :
      FormedStmt (.push array x)
  | memoize (on : Bool) : FormedStmt (.memoize on)

theorem otherwise_cases (level : Nat) (no : List Stmt) :
    (no = [] ∧ otherwise level no = []) ∨
    (∃ test yes more, no = [.cond test yes more] ∧
      otherwise level no = linesOf "elif" level (.cond test yes more)) ∨
    otherwise level no = ⟨level, "else".toList⟩ :: body (level + 1) no := by
  match no with
  | [] => exact Or.inl ⟨rfl, rfl⟩
  | [.cond test yes more] => exact Or.inr (Or.inl ⟨test, yes, more, rfl, rfl⟩)
  | s :: next :: more => exact Or.inr (Or.inr (by rw [otherwise, body]; simp))
  | [.expr _] | [.define _ _] | [.assign _ _ _] | [.block _] | [.whileLoop _ _ _] | [.endless _]
  | [.forEach _ _ _] | [.breakLoop] | [.continueLoop] | [.returnWith _] | [.declare _ _ _ _]
  | [.setItem _ _ _] | [.push _ _] | [.memoize _] => exact Or.inr (Or.inr rfl)

theorem lexed_keyword {word : List Char} (wordlike : ∀ c ∈ word, Text.isWordChar c) (rest : List Char) :
    lexed (word ++ ' ' :: rest) = letters word ++ .source " " :: lexed rest := by
  rw [lexed_letters fun c member => starts_of_isWordChar (wordlike c member), lexed_char (by decide)]
  rfl

theorem lexed_before_blank (first rest : List Char) :
    lexed (first ++ ' ' :: rest) = lexed first ++ lexed (' ' :: rest) := by
  have blank : ' ' ∉ pairs.map Prod.snd := by decide
  exact lexed_append (by rintro _ ⟨⟩; exact blank)

theorem lexed_assigned (first rest : List Char) :
    lexed (first ++ " = ".toList ++ rest) =
      lexed first ++ .source " " :: .source "=" :: .source " " :: lexed rest := by
  have text : first ++ " = ".toList ++ rest = first ++ ' ' :: '=' :: ' ' :: rest := by simp
  rw [text, lexed_before_blank, lexed_one (by decide)]
  rfl

theorem lexed_let {name : String} (valid : IsName name) (text : List Char) :
    lexed ("let ".toList ++ name.toList ++ " = ".toList ++ text) =
      letters "let".toList ++ .source " " ::
        (letters name.toList ++ .source " " :: .source "=" :: .source " " :: lexed text) := by
  have first : lexed ("let ".toList ++ name.toList) = _ := @lexed_keyword "let".toList (by decide) name.toList
  rw [lexed_assigned, first, lexed_name valid, List.append_assoc, List.cons_append]

theorem lexed_for {name : String} (valid : IsName name) (text : List Char) :
    lexed ("for ".toList ++ name.toList ++ " in ".toList ++ text) =
      letters "for".toList ++ .source " " ::
        (letters name.toList ++ .source " " :: (letters "in".toList ++ .source " " :: lexed text)) := by
  have parts : "for ".toList ++ name.toList ++ " in ".toList ++ text =
      "for".toList ++ ' ' :: (name.toList ++ ' ' :: ("in".toList ++ ' ' :: text)) := by simp
  rw [parts, lexed_keyword (by decide), lexed_keyword valid.wordChars, lexed_keyword (by decide)]

theorem lexed_fn {name : String} (valid : IsName name) {params : List String}
    (names : ∀ param ∈ params, IsName param) :
    lexed ("fn ".toList ++ name.toList ++ parenthesized (commas (params.map String.toList))) =
      letters "fn".toList ++ .source " " ::
        (letters name.toList ++ enclosed (listed (params.map fun param => letters param.toList))) := by
  have first : lexed ("fn ".toList ++ name.toList) = _ := @lexed_keyword "fn".toList (by decide) name.toList
  have each : (params.map String.toList).map lexed = params.map fun param => letters param.toList := by
    rw [List.map_map]
    exact List.map_congr_left fun param member => lexed_name (names param member)
  rw [lexed_append_parenthesized, first, lexed_name valid, lexed_commas, each, List.append_assoc,
    List.cons_append]

theorem lexed_push (first second : List Char) :
    lexed ("push".toList ++ parenthesized (commas [first, second])) =
      letters "push".toList ++ enclosed (listed [lexed first, lexed second]) := by
  rw [lexed_append_parenthesized, lexed_commas, lexed_word (by decide)]
  rfl

theorem lexed_memoize (on : Bool) :
    lexed ("MEMOIZATION = ".toList ++ (Value.boolText on).toList) =
      letters "MEMOIZATION".toList ++
        .source " " :: .source "=" :: .source " " :: letters (Value.boolText on).toList := by
  have value : lexed (Value.boolText on).toList = letters (Value.boolText on).toList :=
    lexed_word (by cases on <;> decide)
  have line : lexed ("MEMOIZATION = ".toList ++ (Value.boolText on).toList) = _ :=
    lexed_assigned "MEMOIZATION".toList (Value.boolText on).toList
  rw [line, value, lexed_word (by decide)]

theorem lexed_element (name position : List Char) :
    lexed (name ++ '[' :: position ++ [']']) =
      lexed name ++ .source "[" :: (lexed position ++ [.source "]"]) := by
  have opening : '[' ∉ pairs.map Prod.snd := by decide
  have close : ']' ∉ pairs.map Prod.snd := by decide
  rw [List.append_assoc, List.cons_append, lexed_append (by rintro _ ⟨⟩; exact opening),
    lexed_char (by decide), lexed_append (by rintro _ ⟨⟩; exact close), lexed_char (by decide), lexed_nil]
  rfl

theorem lexed_setItem {name : String} (valid : IsName name) (position text : List Char) :
    lexed (name.toList ++ '[' :: position ++ ']' :: " = ".toList ++ text) =
      letters name.toList ++ .source "[" :: (lexed position ++ [.source "]"]) ++
        .source " " :: .source "=" :: .source " " :: lexed text := by
  have parts : name.toList ++ '[' :: position ++ ']' :: " = ".toList ++ text =
      name.toList ++ '[' :: position ++ [']'] ++ " = ".toList ++ text := by simp
  rw [parts, lexed_assigned, lexed_element, lexed_name valid]

theorem lexed_target {name : String} (valid : IsName name) :
    lexed (target name) =
      if name = "MEMOIZATION" then enclosed (letters name.toList) else letters name.toList := by
  unfold target
  split
  · rw [lexed_parenthesized, lexed_name valid]
  · exact lexed_name valid

def stream : Nat → List Line → Rest
  | level, [] => List.replicate level (.sign "DEDENT") ++ [.sign "EOF"]
  | level, line :: rest =>
    List.replicate (line.level - level) (.sign "INDENT") ++
      List.replicate (level - line.level) (.sign "DEDENT") ++
      (lexed line.text ++ .sign "NEWLINE" :: stream line.level rest)

theorem stream_here (level : Nat) (text : List Char) (rest : List Line) :
    stream level (⟨level, text⟩ :: rest) = lexed text ++ .sign "NEWLINE" :: stream level rest := by
  simp [stream]

theorem stream_indent (level : Nat) (text : List Char) (rest : List Line) :
    stream level (⟨level + 1, text⟩ :: rest) = .sign "INDENT" :: stream (level + 1) (⟨level + 1, text⟩ :: rest) := by
  simp [stream]

/-- No line follows from further inside. -/
def Within (level : Nat) (rest : List Line) : Prop :=
  ∀ line ∈ rest.head?, line.level ≤ level

theorem Within.mono {level outer : Nat} {rest : List Line} (within : Within level rest)
    (le : level ≤ outer) : Within outer rest :=
  fun line head => Nat.le_trans (within line head) le

theorem stream_dedent {level : Nat} {rest : List Line} (within : Within level rest) :
    stream (level + 1) rest = .sign "DEDENT" :: stream level rest := by
  cases rest with
  | nil => simp [stream, List.replicate_succ]
  | cons line rest =>
    have le : line.level ≤ level := within line rfl
    have inner : level + 1 - line.level = level - line.level + 1 := by omega
    have above : line.level - (level + 1) = 0 := by omega
    have here : line.level - level = 0 := by omega
    simp [stream, inner, above, here, List.replicate_succ]

theorem length_stream_pos (level : Nat) (rest : List Line) : 0 < (stream level rest).length := by
  cases rest with
  | nil => simp [stream]
  | cons line rest =>
    simp only [stream, List.length_append, List.length_cons]
    omega

/-- A line with which a statement can begin: no blank comes first, and it goes
on no condition before it. -/
structure Fresh (text : List Char) : Prop where
  opens : Opens (lexed text)
  noBranch : ∀ s, Rest.word (lexed text ++ .sign "NEWLINE" :: s) ∉ ["elif", "else"]

/-- What may follow a statement inside `level` blocks. -/
structure Follow (level : Nat) (rest : List Line) : Prop where
  within : Within level rest
  fresh : ∀ line ∈ rest.head?, line.level = level → Fresh line.text

theorem follow_nil (level : Nat) : Follow level [] :=
  ⟨by rintro _ ⟨⟩, by rintro _ ⟨⟩⟩

theorem Follow.within_inner {level : Nat} {rest : List Line} (within : Within level rest) :
    Follow (level + 1) rest := by
  refine ⟨within.mono (Nat.le_succ level), ?_⟩
  intro line head same
  have le := within line head
  omega

theorem fresh_phrase {p : Precedence} {x : Expr} {shape tail : Rest} {text : List Char}
    (phrase : Phrase p x shape) (written : lexed text = shape ++ tail)
    (clear : ∀ s, Clear (tail ++ .sign "NEWLINE" :: s)) : Fresh text := by
  constructor
  · rw [written]
    exact phrase.opens.append tail
  · intro s
    have words : ∀ word ∈ ["elif", "else"], word ∈ statementWords := by decide
    rw [written, List.append_assoc]
    exact fun member => phrase.word_notMem (clear s) (words _ member)

theorem fresh_keyword {word : List Char} (wordlike : ∀ c ∈ word, Text.isWordChar c) (some : word ≠ [])
    (other : String.ofList word ∉ ["elif", "else"]) {text : List Char} {tail : Rest}
    (written : lexed text = letters word ++ tail) (clear : ∀ s, Clear (tail ++ .sign "NEWLINE" :: s)) :
    Fresh text := by
  constructor
  · rw [written]
    exact (opens_letters some wordlike).append tail
  · intro s
    rwa [written, List.append_assoc, word_letters wordlike (clear s)]

theorem FormedStmt.first {s : Stmt} (formed : FormedStmt s) (level : Nat) :
    ∃ text more, linesOf "if" level s = ⟨level, text⟩ :: more ∧ Fresh text := by
  have newline (s : Rest) : Clear ([] ++ .sign "NEWLINE" :: s) := clear_sign "NEWLINE" s
  have blank (tail s : Rest) : Clear (.source " " :: tail ++ .sign "NEWLINE" :: s) :=
    clear_symbol (by decide) (by decide) _
  have keyword {word text : List Char} {tail : Rest} (wordlike : ∀ c ∈ word, Text.isWordChar c)
      (some : word ≠ []) (other : String.ofList word ∉ ["elif", "else"])
      (written : lexed text = letters word ++ .source " " :: tail) : Fresh text :=
    fresh_keyword wordlike some other written (blank tail)
  cases formed with
  | @expr x formed =>
    exact ⟨_, _, rfl, fresh_phrase formed.phrase (List.append_nil _).symm newline⟩
  | define valid formed =>
    exact ⟨_, _, rfl, keyword (by decide) (by decide) (by decide) (lexed_let valid _)⟩
  | @assign name x valid formed =>
    refine ⟨_, _, rfl, ?_⟩
    have written := lexed_assigned (target name) (spell x)
    rw [lexed_target valid] at written
    split at written
    · exact fresh_phrase (Phrase.group (Phrase.var valid)) written (blank _)
    · exact fresh_phrase (Phrase.var valid) written (blank _)
  | cond formed then_ else_ =>
    exact ⟨_, _, rfl, keyword (by decide) (by decide) (by decide) (lexed_keyword (by decide) _)⟩
  | whileLoop formed each negated =>
    cases negated with
    | false =>
      exact ⟨_, _, rfl, keyword (by decide) (by decide) (by decide)
        (@lexed_keyword "while".toList (by decide) _)⟩
    | true =>
      exact ⟨_, _, rfl, keyword (by decide) (by decide) (by decide)
        (@lexed_keyword "until".toList (by decide) _)⟩
  | forEach valid formed each =>
    exact ⟨_, _, rfl, keyword (by decide) (by decide) (by decide) (lexed_for valid _)⟩
  | breakLoop =>
    have written : lexed "break".toList = letters "break".toList ++ [] := by
      rw [lexed_word (by decide), List.append_nil]
    exact ⟨_, _, rfl, fresh_keyword (by decide) (by decide) (by decide) written newline⟩
  | continueLoop =>
    have written : lexed "continue".toList = letters "continue".toList ++ [] := by
      rw [lexed_word (by decide), List.append_nil]
    exact ⟨_, _, rfl, fresh_keyword (by decide) (by decide) (by decide) written newline⟩
  | returnNone =>
    have written : lexed "return".toList = letters "return".toList ++ [] := by
      rw [lexed_word (by decide), List.append_nil]
    exact ⟨_, _, rfl, fresh_keyword (by decide) (by decide) (by decide) written newline⟩
  | returnSome formed =>
    exact ⟨_, _, rfl, keyword (by decide) (by decide) (by decide)
      (@lexed_keyword "return".toList (by decide) _)⟩
  | declare valid names distinct each =>
    exact ⟨_, _, rfl, keyword (by decide) (by decide) (by decide) (lexed_fn valid names)⟩
  | @setItem name position x valid inner formed =>
    exact ⟨_, _, rfl, fresh_phrase (Phrase.index le_rfl (Phrase.var valid) inner.phrase)
      (lexed_setItem valid (spell position) (spell x)) (blank _)⟩
  | push first second =>
    refine ⟨_, _, rfl, fresh_keyword (by decide) (by decide) (by decide) (lexed_push _ _) ?_⟩
    exact fun s => clear_symbol (by decide) (by decide) _
  | memoize on =>
    exact ⟨_, _, rfl, keyword (by decide) (by decide) (by decide) (lexed_memoize on)⟩

theorem follow_all {statements : List Stmt} (formed : ∀ s ∈ statements, FormedStmt s) {level : Nat}
    {rest : List Line} (follow : Follow level rest) :
    Follow level (linesOfAll level statements ++ rest) := by
  cases statements with
  | nil => exact follow
  | cons s more =>
    obtain ⟨text, others, lines, fresh⟩ := (formed s List.mem_cons_self).first level
    rw [linesOfAll, lines]
    constructor
    · rintro _ ⟨⟩
      exact Nat.le_refl level
    · rintro _ ⟨⟩ _
      exact fresh

end ScriptKernel.Lumen
