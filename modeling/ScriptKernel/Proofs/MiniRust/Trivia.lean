import ScriptKernel.Proofs.MiniRust.RoundTrip
import ScriptKernel.Proofs.MiniRust.Transfer
import ScriptKernel.Proofs.Session.Progress

/-!
Layout has no meaning in MiniRust. Where blanks and comments stand between the
lexemes of a source, others may stand as well: the source is read as the same
program. Only in a string, in a comment and in the arguments of a type, which
are skipped lexeme by lexeme, they belong to what they stand in.
-/

namespace ScriptKernel.MiniRust

def blankChars : List Char := [' ', '\t', '\r', '\x0c', '\n']

/-- Blanks, and comments that end with their line. -/
inductive Trivia : List Char → Prop
  | nil : Trivia []
  | blank {c : Char} {rest : List Char} (blank : c ∈ blankChars) (later : Trivia rest) : Trivia (c :: rest)
  | comment {text rest : List Char} (oneLine : '\n' ∉ text) (later : Trivia rest) :
      Trivia ('/' :: '/' :: (text ++ '\n' :: rest))

def siteBehind (before : List Char) : Site :=
  Site.through .code ((lexed before).map (·.text))

/-- Behind the text `before` the trivia `run` stand in code or before a type, and
not in a string, a comment or angle brackets of a type. No lexeme starts before
them and ends in them, so that they do not start within a comment. -/
structure Loose (before run : List Char) : Prop where
  trivia : Trivia run
  nonempty : run ≠ []
  apart : lexed (before ++ run) = lexed before ++ lexed run
  outside : (siteBehind before).isOpen = true

variable {before run after : List Char}

theorem blank_apart {c : Char} (blank : c ∈ blankChars) : c ∉ pairs.map Prod.fst ∧ c ∉ pairs.map Prod.snd := by
  revert c
  decide

theorem Trivia.ends (trivia : Trivia run) (nonempty : run ≠ []) : ∃ front c, run = front ++ [c] ∧ c ∈ blankChars := by
  induction trivia with
  | nil => exact absurd rfl nonempty
  | @blank c rest blank later ih =>
    by_cases last : rest = []
    · exact ⟨[], c, by rw [last]; rfl, blank⟩
    · obtain ⟨front, d, rfl, blank'⟩ := ih last
      exact ⟨c :: front, d, rfl, blank'⟩
  | @comment text rest oneLine later ih =>
    by_cases last : rest = []
    · exact ⟨'/' :: '/' :: text, '\n', by rw [last]; rfl, by decide⟩
    · obtain ⟨front, d, rfl, blank⟩ := ih last
      exact ⟨'/' :: '/' :: (text ++ '\n' :: front), d, by simp, blank⟩

theorem Trivia.lexed_before (trivia : Trivia run) (nonempty : run ≠ []) (before after : List Char) :
    lexed (before ++ (run ++ after)) = lexed (before ++ run) ++ lexed after := by
  obtain ⟨front, c, rfl, blank⟩ := trivia.ends nonempty
  have cut (after : List Char) : lexed (before ++ (front ++ [c] ++ after)) =
      lexed (before ++ front) ++ .source (String.singleton c) :: lexed after := by
    rw [← MiniRust.lexed_before (blank_apart blank), List.append_assoc, List.append_assoc, List.singleton_append]
  have whole := cut []
  rw [List.append_nil, lexed_nil] at whole
  rw [cut, whole, List.append_assoc, List.singleton_append]

theorem Trivia.lexed_front (trivia : Trivia run) (after : List Char) :
    lexed (run ++ after) = lexed run ++ lexed after := by
  by_cases nonempty : run = []
  · rw [nonempty, lexed_nil]
    rfl
  · exact trivia.lexed_before nonempty [] after

theorem skipFrom_comment (semicolons : Bool) {body : Rest} (inside : ∀ l ∈ body, l.synthetic = false ∧ l.text ≠ "\n")
    (rest : Rest) :
    skipFrom semicolons true (body ++ .source "\n" :: rest) = skipFrom semicolons false rest := by
  induction body with
  | nil => rfl
  | cons l body ih =>
    rw [List.forall_mem_cons] at inside
    have goes : (l.text != "\n") = true := by simpa using inside.1.2
    rw [List.cons_append, skipFrom, inside.1.1, if_neg Bool.false_ne_true, goes]
    exact ih inside.2

theorem Trivia.skipped (trivia : Trivia run) (semicolons : Bool) (rest : Rest) :
    skipFrom semicolons false (lexed run ++ rest) = skipFrom semicolons false rest := by
  induction trivia with
  | nil => rw [lexed_nil, List.nil_append]
  | @blank c run blank later ih =>
    have space : ∀ c ∈ blankChars, (Lexeme.source (String.singleton c)).isSpace true = true := by decide
    rw [lexed_char (blank_apart blank).1, List.cons_append, skipFrom, if_pos (space c blank)]
    exact ih
  | @comment text run oneLine later ih =>
    have cut : lexed ('/' :: '/' :: (text ++ '\n' :: run)) = .source "//" :: (lexed text ++ .source "\n" :: lexed run) := by
      have newline : lexed (text ++ '\n' :: run) = lexed text ++ .source "\n" :: lexed run :=
        MiniRust.lexed_before (by decide) text run
      rw [← newline]
      exact Lexer.lexed_pair paired (by decide) _
    have inside (l : Lexeme) (member : l ∈ lexed text) : l.synthetic = false ∧ l.text ≠ "\n" :=
      ⟨Lexer.source_of_mem_lexed table text l member, Lexer.singleton_not_mem_lexed paired oneLine l member⟩
    rw [cut, List.cons_append, List.append_assoc, List.cons_append]
    calc skipFrom semicolons false (.source "//" :: (lexed text ++ .source "\n" :: (lexed run ++ rest)))
        = skipFrom semicolons true (lexed text ++ .source "\n" :: (lexed run ++ rest)) := rfl
      _ = skipFrom semicolons false (lexed run ++ rest) := skipFrom_comment semicolons inside _
      _ = skipFrom semicolons false rest := ih

theorem Trivia.begins (trivia : Trivia run) (nonempty : run ≠ []) : ∃ l more, lexed run = l :: more ∧ Trivial l := by
  cases trivia with
  | nil => exact absurd rfl nonempty
  | @blank c rest blank later =>
    have known : ∀ c ∈ blankChars, String.singleton c ∈ hidden := by decide
    exact ⟨_, _, lexed_char (blank_apart blank).1 rest, rfl, known c blank⟩
  | comment oneLine later => exact ⟨_, _, Lexer.lexed_pair paired (by decide) _, rfl, by decide⟩

theorem Trivia.gap (trivia : Trivia run) (nonempty : run ≠ []) {g : Rest} (bare : g.bare = lexed run) : Gap g where
  begins := by
    obtain ⟨l, more, cut, trivial⟩ := trivia.begins nonempty
    rw [cut] at bare
    cases g with
    | nil => cases bare
    | cons l' more' =>
      rw [Rest.bare_cons, List.cons.injEq] at bare
      refine ⟨l', more', rfl, ?_⟩
      rw [← bare.1] at trivial
      exact trivial
  skipped semicolons rest := by
    -- Both are ends of the same stream, and they are as long as each other.
    have same : (skipFrom semicolons false (g ++ rest)).bare = (skipFrom semicolons false rest).bare := by
      rw [← skipFrom_bare, ← skipFrom_bare]
      have joined : Rest.bare (g ++ rest) = lexed run ++ rest.bare := by
        rw [← bare]
        exact List.map_append
      rw [joined, trivia.skipped]
    have lengths := congrArg List.length same
    rw [Rest.length_bare, Rest.length_bare] at lengths
    have first := skipFrom_suffix semicolons false (g ++ rest)
    have second := (skipFrom_suffix semicolons false rest).trans (List.suffix_append g rest)
    exact (List.suffix_of_suffix_length_le first second lengths.le).eq_of_length lengths

theorem Alike.prepend {fork : Fork} {site : Site} {front front' rest rest' : Rest}
    (source : ∀ l ∈ front, l.synthetic = false) (same : front'.bare = front.bare)
    (passes : ∀ before l behind, front = before ++ l :: behind →
      (site.through (before.map (·.text))).isOpen = true → l.text ∉ fork.barred)
    (apart : ∀ before l behind, front = before ++ l :: behind → fork.Near (behind ++ rest) → l.isWord = true →
      l.isDigits = true)
    (later : Alike fork (site.through (front.map (·.text))) rest rest') :
    Alike fork site (front ++ rest) (front' ++ rest') := by
  induction front generalizing front' site with
  | nil =>
    rw [List.map_eq_nil_iff.1 same]
    exact later
  | cons l front ih =>
    cases front' with
    | nil => cases same
    | cons l' front' =>
      rw [Rest.bare_cons, Rest.bare_cons, List.cons.injEq] at same
      rw [List.forall_mem_cons] at source
      refine .same source.1 same.1 (passes [] l front rfl) (apart [] l front rfl) (ih source.2 same.2 ?_ ?_ later)
      · exact fun before l' behind split open_ => passes (l :: before) l' behind (by rw [split]; rfl) open_
      · exact fun before l' behind split => apart (l :: before) l' behind (by rw [split]; rfl)

theorem not_near_none {rest : Rest} : ¬Fork.none.Near rest := by
  rintro ⟨digits, more, more', all, parts, -⟩
  exact parts

theorem Alike.prependAll {site : Site} {front front' rest rest' : Rest} (source : ∀ l ∈ front, l.synthetic = false)
    (same : front'.bare = front.bare) (later : Alike .none (site.through (front.map (·.text))) rest rest') :
    Alike .none site (front ++ rest) (front' ++ rest') :=
  later.prepend source same (fun _ _ _ _ _ => List.not_mem_nil) fun _ _ _ _ near => absurd near not_near_none

theorem map_text_bare (rest : Rest) : rest.bare.map (·.text) = rest.map (·.text) := by
  rw [Rest.bare, List.map_map]
  rfl

theorem source_of_bare {rest : Rest} {text : List Char} (bare : rest.bare = lexed text) :
    ∀ l ∈ rest, l.synthetic = false := by
  intro l member
  have placeless : l.bare ∈ lexed text := bare ▸ List.mem_map_of_mem member
  exact Lexer.source_of_mem_lexed table text l.bare placeless

theorem site_of_bare {rest : Rest} {text : List Char} (bare : rest.bare = lexed text) :
    Site.through .code (rest.map (·.text)) = siteBehind text := by
  rw [siteBehind, ← map_text_bare rest, bare]

theorem alike_of_bare (site : Site) {text : List Char} {tokens tokens' : Rest}
    (bare : tokens.bare = lexed text ++ [.sign "EOF"]) (bare' : tokens'.bare = lexed text ++ [.sign "EOF"]) :
    Alike .none site tokens tokens' := by
  obtain ⟨front, last, rfl, same, ends⟩ := List.map_eq_append_iff.1 bare
  obtain ⟨front', last', rfl, same', ends'⟩ := List.map_eq_append_iff.1 bare'
  obtain ⟨l, rfl, marker⟩ := List.map_eq_singleton_iff.1 ends
  obtain ⟨l', rfl, marker'⟩ := List.map_eq_singleton_iff.1 ends'
  apply Alike.prependAll (source_of_bare same) (same'.trans same.symm)
  have ended : l.synthetic = true ∧ l.text = "EOF" := by
    rw [← Lexeme.bare_synthetic, ← Lexeme.bare_text, marker]
    exact ⟨rfl, rfl⟩
  exact .ended ended (marker'.trans marker.symm)

theorem alike_streams {run' : List Char} (loose : Loose before run) (trivia : Trivia run')
    (starts : ∃ c ∈ run'.head?, c ∈ blankChars) {tokens tokens' : Rest}
    (bare : Rest.bare tokens = lexed (before ++ (run ++ after)) ++ [.sign "EOF"])
    (bare' : Rest.bare tokens' = lexed (before ++ (run' ++ after)) ++ [.sign "EOF"]) :
    Alike .none .code tokens tokens' := by
  obtain ⟨c, first, blank⟩ := starts
  have nonempty : run' ≠ [] := by
    rintro rfl
    cases first
  have apart : lexed (before ++ run') = lexed before ++ lexed run' := by
    apply Lexer.lexed_append paired
    intro d head
    rw [Option.mem_unique head first]
    exact (blank_apart blank).2
  rw [loose.trivia.lexed_before loose.nonempty, loose.apart, List.append_assoc, List.append_assoc] at bare
  rw [trivia.lexed_before nonempty, apart, List.append_assoc, List.append_assoc] at bare'
  obtain ⟨front, later, rfl, same, behind⟩ := List.map_eq_append_iff.1 bare
  obtain ⟨front', later', rfl, same', behind'⟩ := List.map_eq_append_iff.1 bare'
  obtain ⟨g, rest, rfl, gap, behind⟩ := List.map_eq_append_iff.1 behind
  obtain ⟨g', rest', rfl, gap', behind'⟩ := List.map_eq_append_iff.1 behind'
  apply Alike.prependAll (source_of_bare same) (same'.trans same.symm)
  rw [site_of_bare same]
  apply Alike.gap loose.outside (loose.trivia.gap loose.nonempty gap) (trivia.gap nonempty gap')
  exact alike_of_bare _ behind behind'

theorem tooDeep_guarded {s : Session} (known : s.language ∈ Language.all) {source : List UInt8} {tokens : Rest}
    (lexed : s.tokens source = .ok tokens)
    (deep : Parser.TooDeep (s.language.grammar.program (s.contextOf tokens) tokens)) :
    0 < (s.contextOf tokens).maxDepth ∧ (s.contextOf tokens).maxDepth < (2 * tokens.length + 4 : Nat) := by
  have outcome := Session.program_outcome known lexed s.maxDepth
  change (s.walk _ _ _).Outcome _ _ _ (s.language.grammar.program (s.contextOf tokens) tokens) at outcome
  cases result : s.language.grammar.program (s.contextOf tokens) tokens with
  | ok program reached =>
    rw [result] at deep
    exact deep.elim
  | error e reached =>
    rw [result] at deep outcome
    rcases outcome.shallow deep with guarded | short
    · exact guarded
    · omega

theorem contextOf_eq {s : Session} (minirust : s.language = Language.minirust) (tokens : Rest) :
    s.contextOf tokens = context tokens s.options.file s.maxDepth := by
  rw [Session.contextOf, minirust]
  rfl

def sideBySide (s : Session) (tokens tokens' : Rest) (forks : List Fork) : Transfer where
  ctx := s.contextOf tokens
  walk := s.walk tokens' s.maxDepth (2 * tokens.length + 4 + (2 * tokens'.length + 4))
  inside := Beside forks
  after := Beside forks

theorem parse_beside {s : Session} (minirust : s.language = Language.minirust) {source : List UInt8}
    {tokens tokens' : Rest} (lexed : s.tokens source = .ok tokens') {forks : List Fork}
    (worded : ∀ fork ∈ forks, fork.start ≠ ")")
    (declares : ∀ fork ∈ forks, ∀ {rest rest'}, fork.parts rest rest' →
      Declares (sideBySide s tokens tokens' forks) rest rest')
    (beside : Beside forks tokens tokens') {program : List Stmt}
    (parsed : s.language.grammar.parse (s.contextOf tokens) tokens = .ok program) :
    s.language.grammar.parse (s.contextOf tokens') tokens' = .ok program := by
  have known : s.language ∈ Language.all := by
    rw [minirust]
    exact List.mem_cons_of_mem _ List.mem_cons_self
  let k := sideBySide s tokens tokens' forks
  obtain ⟨sound, moving⟩ := Session.walk_moving known lexed s.maxDepth (2 * tokens.length + 4 + (2 * tokens'.length + 4))
  have first : k.ctx = context tokens s.options.file s.maxDepth := contextOf_eq minirust tokens
  have second : k.walk.ctx = context tokens' s.options.file s.maxDepth := contextOf_eq minirust tokens'
  have relaid : Relaid k forks :=
    { lenient := ⟨sound, fun _ _ _ => trivial⟩
      depth := by rw [first, second]; rfl
      inside := rfl
      after := rfl
      skipSpace := by rw [first, second]; exact ⟨rfl, rfl⟩
      skipTrivia := by rw [first, second]; exact ⟨rfl, rfl⟩
      aliases := by rw [first, second]; exact ⟨rfl, rfl⟩
      worded := worded
      declares := declares }
  have carrying : s.language.grammar.Carrying k := by
    rw [minirust]
    exact grammar_carrying relaid
  obtain ⟨reached, read⟩ := Grammar.parse_eq_ok.1 parsed
  rcases Grammar.program_carries relaid.aligned moving carrying (Language.grammar_uniform known)
    (relaid.gathers relaid.aligned.atEnd) (Nat.le_add_right _ _) (Nat.le_add_left _ _) beside read with
    again | ⟨deep, unguarded⟩
  · exact Grammar.parse_eq_ok.2 again
  · exact absurd (tooDeep_guarded known lexed deep) unguarded

theorem parse_alike {s : Session} (minirust : s.language = Language.minirust) {source : List UInt8}
    {tokens tokens' : Rest} (lexed : s.tokens source = .ok tokens') (alike : Alike .none .code tokens tokens')
    {program : List Stmt} (parsed : s.language.grammar.parse (s.contextOf tokens) tokens = .ok program) :
    s.language.grammar.parse (s.contextOf tokens') tokens' = .ok program := by
  apply parse_beside minirust lexed _ _ ⟨Fork.none, List.mem_singleton_self _, alike⟩ parsed
  · exact List.forall_mem_singleton.2 (by decide)
  · intro fork member rest rest' parts
    rw [List.mem_singleton.1 member] at parts
    exact parts.elim

/-- Layout is insignificant: a source that parses is a text, and where it has
trivia outside strings, comments and the angle brackets of types, any others
that start with a blank may stand instead without a change of the program. -/
theorem layout_insignificant {s : Session} (minirust : s.language = Language.minirust) {source : List UInt8}
    {program : List Stmt} (parsed : s.parse source = .ok program) :
    (∃ text, source = Text.Utf8.encode (String.ofList text)) ∧
    ∀ before run after, source = Text.Utf8.encode (String.ofList (before ++ (run ++ after))) → Loose before run →
      ∀ run', Trivia run' → (∃ c ∈ run'.head?, c ∈ blankChars) →
        s.parse (Text.Utf8.encode (String.ofList (before ++ (run' ++ after)))) = .ok program := by
  obtain ⟨tokens, lexed, read⟩ := Session.tokens_of_parse parsed
  refine ⟨Session.source_text lexed, ?_⟩
  rintro before run after rfl loose run' trivia starts
  obtain ⟨tokens', lexed', bare'⟩ := tokens_encode minirust (before ++ (run' ++ after))
  obtain ⟨found, again, bare⟩ := tokens_encode minirust (before ++ (run ++ after))
  cases lexed.symm.trans again
  have alike := alike_streams loose trivia starts bare bare'
  exact Session.parse_of_tokens ⟨tokens', lexed', parse_alike minirust lexed' alike read⟩

theorem parsed_typed : (⟨Language.minirust, {}⟩ : Session).parse (Text.Utf8.encode "let x: A<B> = 1") =
    .ok [.define "x" (.literal (.int 1))] := by
  refine Session.parse_of_tokens ⟨?tokens, ?lexed, ?read⟩
  case lexed => cbv; rfl
  case read =>
    change grammar.parse (context _ "" 512) _ = _
    rfl

theorem loose_typed : Loose "let x: A<B> =".toList [' '] where
  trivia := .blank (by decide) .nil
  nonempty := List.cons_ne_nil _ _
  apart := Lexer.lexed_append paired (by rintro _ ⟨⟩; decide)
  outside := by cbv

theorem layout_insignificant_comment :
    let s : Session := ⟨Language.minirust, {}⟩
    let program := [Stmt.define "x" (.literal (.int 1))]
    Loose "let x: A<B> =".toList [' '] ∧ s.parse (Text.Utf8.encode "let x: A<B> = 1") = .ok program ∧
      s.parse (Text.Utf8.encode "let x: A<B> = // \" : <\n1") = .ok program := by
  intro s program
  have oneLine : '\n' ∉ " \" : <".toList := by decide
  have commented : Trivia " // \" : <\n".toList := .blank (by decide) (.comment oneLine .nil)
  have text : String.ofList ("let x: A<B> =".toList ++ ([' '] ++ ['1'])) = "let x: A<B> = 1" := rfl
  have text' : String.ofList ("let x: A<B> =".toList ++ (" // \" : <\n".toList ++ ['1'])) =
      "let x: A<B> = // \" : <\n1" := rfl
  obtain ⟨-, changes⟩ := layout_insignificant (s := s) rfl parsed_typed
  have other := changes _ _ _ (congrArg Text.Utf8.encode text.symm) loose_typed _ commented ⟨' ', rfl, by decide⟩
  rw [text'] at other
  exact ⟨loose_typed, parsed_typed, other⟩

end ScriptKernel.MiniRust
