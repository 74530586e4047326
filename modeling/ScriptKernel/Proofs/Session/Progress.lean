import ScriptKernel.Proofs.Lumen.DepthBound
import ScriptKernel.Proofs.MiniRust.DepthBound
import ScriptKernel.Proofs.Parse.Sessions
import ScriptKernel.Proofs.Session.Streams

/-!
Parsing under a bound on nesting. Under a tighter bound a source parses to the
same program or fails in the same way, unless the depth guard itself refuses it;
so a program that any bound lets through is the one read without a guard.
Whatever the source and the bound, a session gets a program or a fault of the
source, and never one of the parser: each part that is read leaves the cursor
behind where it started, and the whole stream is read before the depth of the
recursion could exceed the length of the input.
-/

namespace ScriptKernel

theorem Language.grammar_uniform {language : Language} (known : language ∈ Language.all) :
    language.grammar.Uniform := by
  simp only [Language.all, List.mem_cons, List.not_mem_nil, or_false] at known
  rcases known with rfl | rfl
  · exact Lumen.grammar_uniform
  · exact MiniRust.grammar_uniform

theorem Language.context_bounded {language : Language} (known : language ∈ Language.all) (tokens : List Lexeme)
    (file : String) (bound loose : Int) :
    (language.context tokens file bound).bounded loose = language.context tokens file loose := by
  simp only [Language.all, List.mem_cons, List.not_mem_nil, or_false] at known
  rcases known with rfl | rfl
  · rfl
  · rfl

namespace Session

variable {s : Session} {source : List UInt8} {program : List Stmt}

def withMaxDepth (s : Session) (bound : Int) : Session :=
  { s with options := { s.options with maxDepth := bound } }

/-- What is parsed under a depth bound, or without a guard when the bound is
not positive. -/
def parseWithin (s : Session) (bound : Int) (source : List UInt8) : Except SourceError (List Stmt) :=
  match s.tokens source with
  | .error e => .error (.lex e)
  | .ok tokens => (s.language.grammar.parse (s.language.context tokens s.options.file bound) tokens).mapError .parse

theorem parse_eq (s : Session) (source : List UInt8) : s.parse source = s.parseWithin s.maxDepth source :=
  rfl

theorem parse_withMaxDepth (s : Session) {bound : Int} (positive : 0 < bound) (source : List UInt8) :
    (s.withMaxDepth bound).parse source = s.parseWithin bound source := by
  have same : (s.withMaxDepth bound).maxDepth = bound := if_pos positive
  rw [parse_eq, same]
  rfl

def Refused (result : Except SourceError (List Stmt)) : Prop :=
  ∃ e, result = .error (.parse e) ∧ e.fault.message = "Expression nested too deeply"

theorem parseWithin_tighter (known : s.language ∈ Language.all) {tight loose : Int} (tighter : Tighter tight loose)
    (source : List UInt8) :
    s.parseWithin tight source = s.parseWithin loose source ∨ Refused (s.parseWithin tight source) := by
  cases lexed : s.tokens source with
  | error e =>
    left
    simp only [parseWithin, lexed]
  | ok tokens =>
    have same (bound : Int) : s.parseWithin bound source =
        (s.language.grammar.parse (s.language.context tokens s.options.file bound) tokens).mapError .parse := by
      simp only [parseWithin, lexed]
    have bounded : ((s.language.context tokens s.options.file tight).maxDepth) = tight := by
      rw [← Language.context_bounded known tokens s.options.file tight tight]
      rfl
    rw [← bounded] at tighter
    rcases Grammar.program_upToDepth (Language.grammar_uniform known) tighter tokens with equal | deep
    · left
      rw [Language.context_bounded known] at equal
      rw [same, same, Grammar.parse, Grammar.parse, equal]
    · right
      rw [same, Grammar.parse]
      cases result : s.language.grammar.program (s.language.context tokens s.options.file tight) tokens with
      | ok found reached =>
        rw [result] at deep
        exact deep.elim
      | error e reached =>
        rw [result] at deep
        have fault : e.fault = .nestedTooDeeply := deep
        refine ⟨e, rfl, ?_⟩
        rw [fault]
        rfl

/-- A tighter bound changes nothing but what it refuses, and what it lets
through is read without a guard just the same. -/
theorem depth_guard_only_rejects (known : s.language ∈ Language.all) {m m' : Int} (positive : 0 < m) (le : m ≤ m')
    (source : List UInt8) :
    ((s.withMaxDepth m).parse source = (s.withMaxDepth m').parse source ∨
      Refused ((s.withMaxDepth m).parse source)) ∧
    ∀ program, (s.withMaxDepth m).parse source = .ok program →
      ∀ bound ≤ 0, s.parseWithin bound source = .ok program := by
  rw [parse_withMaxDepth s positive, parse_withMaxDepth s (Int.lt_of_lt_of_le positive le)]
  refine ⟨parseWithin_tighter known (tighter_of_le positive le) source, ?_⟩
  intro program parsed bound unguarded
  have unbounded : Tighter m bound := tighter_of_nonpos unguarded
  rcases parseWithin_tighter known unbounded source with same | ⟨e, refused, -⟩
  · rw [← same, parsed]
  · rw [refused] at parsed
    cases parsed

theorem parsed_within_four :
    ((⟨Language.minirust, {}⟩ : Session).withMaxDepth 4).parse (Text.Utf8.encode "-(a)") =
      .ok [.expr (.intNegate (.var "a"))] := by
  refine parse_of_tokens ⟨?tokens, ?lexed, ?read⟩
  case lexed => cbv; rfl
  case read =>
    change MiniRust.grammar.parse (MiniRust.context _ "" 4) _ = _
    rfl

theorem depth_guard_only_rejects_negation :
    let s : Session := ⟨Language.minirust, {}⟩
    let source := Text.Utf8.encode "-(a)"
    let program := [Stmt.expr (.intNegate (.var "a"))]
    (s.withMaxDepth 4).parse source = .ok program ∧
      (s.withMaxDepth 4).parse source = (s.withMaxDepth 5).parse source ∧ s.parseWithin 0 source = .ok program := by
  intro s source program
  have parsed : (s.withMaxDepth 4).parse source = .ok program := parsed_within_four
  have known : s.language ∈ Language.all := List.mem_cons_of_mem _ List.mem_cons_self
  have positive : (0 : Int) < 4 := by decide
  have le : (4 : Int) ≤ 5 := by decide
  obtain ⟨same, unguarded⟩ := depth_guard_only_rejects known positive le source
  refine ⟨parsed, ?_, unguarded program parsed 0 le_rfl⟩
  rcases same with same | ⟨e, refused, -⟩
  · exact same
  · rw [refused] at parsed
    cases parsed

end Session

/-- When the parser succeeds, the cursor is strictly behind where it was. -/
def Parser.Consumes {α : Type} (p : Parser α) (ctx : Context) (rest : Rest) : Prop :=
  ∀ x reached, p ctx rest = .ok x reached → ∃ eaten, eaten ≠ [] ∧ rest = eaten ++ reached

theorem Walk.Moves.consumes {α : Type} {w : Walk} {room a b : Nat} {p : Parser α} {rest : Rest}
    (moves : w.Moves room (w.Eats a b) p rest) (within : rest <:+ w.base) : p.Consumes w.ctx rest := by
  intro x reached parsed
  have outcome := moves within
  rw [parsed] at outcome
  obtain ⟨eaten, split, nonempty, -⟩ := outcome
  exact ⟨eaten, nonempty, split⟩

theorem Language.context_eq {language : Language} (known : language ∈ Language.all) (tokens : List Lexeme)
    (file : String) (bound : Int) :
    let ctx := language.context tokens file bound
    ctx.maxDepth = bound ∧ ctx.file = file ∧ ctx.past = Lexeme.past tokens ∧ ctx.aliases = {} :=
  forall_known (P := fun language =>
    (language.context tokens file bound).maxDepth = bound ∧ (language.context tokens file bound).file = file ∧
      (language.context tokens file bound).past = Lexeme.past tokens ∧
      (language.context tokens file bound).aliases = {}) ⟨rfl, rfl, rfl, rfl⟩ ⟨rfl, rfl, rfl, rfl⟩ known

namespace Session

variable {s : Session} {source : List UInt8} {tokens : List Lexeme}

theorem synthetic_of_atEnd {ctx : Context} (plain : ctx.aliases = {}) (ended : Lexeme.Ended {} tokens)
    {reached : Rest} (within : reached <:+ tokens) (atEnd : ctx.atEnd reached = true) :
    ∀ l ∈ reached, l.synthetic = true := by
  obtain ⟨front, finish, rfl, unended⟩ := ended
  cases reached with
  | nil => exact List.forall_mem_nil _
  | cons l rest =>
    rw [Context.atEnd, plain, Bool.and_eq_true, beq_iff_eq] at atEnd
    obtain ⟨before, split⟩ := within
    rcases List.eq_nil_or_concat rest with rfl | ⟨more, last, rfl⟩
    · rw [List.forall_mem_singleton]
      exact atEnd.1
    · -- An end marker with more behind it would be one before the last.
      have inner : before ++ l :: more = front := by
        rw [List.concat_eq_append, ← List.cons_append, ← List.append_assoc] at split
        exact (List.append_inj' split rfl).1
      exact absurd atEnd.2 (unended l (inner ▸ by simp) atEnd.1)

def walk (s : Session) (tokens : List Lexeme) (bound : Int) (limit : Nat) : Walk :=
  Walk.plain (s.language.context tokens s.options.file bound) tokens limit

theorem walk_moving (known : s.language ∈ Language.all) (lexed : s.tokens source = .ok tokens) (bound : Int)
    (limit : Nat) : (s.walk tokens bound limit).Sound ∧ s.language.grammar.Moving (s.walk tokens bound limit) :=
  Language.grammar_moving known (tokens_digital known lexed) s.options.file bound limit

theorem program_outcome (known : s.language ∈ Language.all) (lexed : s.tokens source = .ok tokens) (bound : Int) :
    (s.walk tokens bound (2 * tokens.length + 4)).Outcome (tokens.length + 2) (fun _ => True) tokens
      (s.language.grammar.program (s.language.context tokens s.options.file bound) tokens) := by
  obtain ⟨sound, moving⟩ := walk_moving known lexed bound (2 * tokens.length + 4)
  have moves := Grammar.program_moves (a := 0) sound moving (Nat.le_refl _)
  exact (moves.weaken fun _ _ => trivial) List.suffix_rfl

theorem parseWithin_outcome (known : s.language ∈ Language.all) (bound : Int) (source : List UInt8) :
    (∃ program, s.parseWithin bound source = .ok program) ∨
      (∃ e, s.parseWithin bound source = .error (.lex e) ∧ s.tokens source = .error e) ∨
      ∃ e tokens, s.parseWithin bound source = .error (.parse e) ∧ s.tokens source = .ok tokens ∧
        (s.walk tokens bound (2 * tokens.length + 4)).Fair (tokens.length + 2) tokens e := by
  cases lexed : s.tokens source with
  | error e =>
    right
    left
    exact ⟨e, by simp only [parseWithin, lexed], rfl⟩
  | ok tokens =>
    have outcome := program_outcome known lexed bound
    have shape : s.parseWithin bound source = (s.language.grammar.parse
        (s.language.context tokens s.options.file bound) tokens).mapError .parse := by
      simp only [parseWithin, lexed]
    rw [shape, Grammar.parse]
    cases parsed : s.language.grammar.program (s.language.context tokens s.options.file bound) tokens with
    | ok program reached => exact Or.inl ⟨program, rfl⟩
    | error e reached =>
      rw [parsed] at outcome
      exact Or.inr (Or.inr ⟨e, tokens, rfl, rfl, outcome⟩)

/-- Whatever the source and the bound on nesting, parsing ends with a program or
with a fault of the source. The parser never stands still, and without a guard
it never gives up on account of the depth, nor with a guard that allows more
than two levels for each lexeme. What it reads it consumes, an expression or a
statement strictly more than nothing, and a program to the last source lexeme. -/
theorem parse_progresses (known : s.language ∈ Language.all) (source : List UInt8) (bound : Int) :
    ((∃ program, s.parseWithin bound source = .ok program) ∨ (∃ e, s.parseWithin bound source = .error (.lex e)) ∨
      ∃ e, s.parseWithin bound source = .error (.parse e) ∧ (∀ seen, e.fault ≠ .nothingConsumed seen) ∧
        (e.fault = .nestedTooDeeply → 0 < bound ∧
          ∃ tokens, s.tokens source = .ok tokens ∧ bound < 2 * tokens.length + 4)) ∧
    ∀ tokens, s.tokens source = .ok tokens →
      let ctx := s.language.context tokens s.options.file bound
      (∀ rest, rest <:+ tokens → ∀ fuel depth,
        (∀ least, ((s.language.grammar.nestedAt fuel depth).expr least).Consumes ctx rest) ∧
          (s.language.grammar.nestedAt fuel depth).statement.Consumes ctx rest) ∧
      ∀ program reached, s.language.grammar.program ctx tokens = .ok program reached →
        ∀ l ∈ reached, l.synthetic = true := by
  constructor
  · rcases parseWithin_outcome known bound source with parsed | ⟨e, refused, -⟩ | ⟨e, tokens, failed, lexed, fair⟩
    · exact Or.inl parsed
    · exact Or.inr (Or.inl ⟨e, refused⟩)
    · refine Or.inr (Or.inr ⟨e, failed, fair.consumed, fun deep => ?_⟩)
      have bounded : (s.walk tokens bound (2 * tokens.length + 4)).ctx.maxDepth = bound :=
        (Language.context_eq known tokens s.options.file bound).1
      have guarded := (fair.shallow deep).resolve_right (by omega)
      rw [bounded] at guarded
      exact ⟨guarded.1, tokens, lexed, guarded.2⟩
  · intro tokens lexed ctx
    refine ⟨fun rest within fuel depth => ?_, fun program reached parsed => ?_⟩
    · obtain ⟨sound, moving⟩ := walk_moving known lexed bound (fuel + depth)
      have parts := Grammar.nestedAt_moves sound moving fuel depth (Nat.le_refl _)
      exact ⟨fun least => (parts.expr 0 least rest).consumes within, (parts.statement 0 rest).consumes within⟩
    · have outcome := program_outcome known lexed bound
      change (s.walk _ _ _).Outcome _ _ _ (s.language.grammar.program ctx tokens) at outcome
      rw [parsed] at outcome
      obtain ⟨eaten, split, -⟩ := outcome
      have plain := (Language.context_eq known tokens s.options.file bound).2.2.2
      exact synthetic_of_atEnd plain (tokens_ended known lexed) ⟨eaten, split.symm⟩ (Grammar.blockFrom_stops _ parsed)

theorem parseWithin_of_tokens {bound : Int} {e : ParseError} (read : ∃ tokens, s.tokens source = .ok tokens ∧
    s.language.grammar.parse (s.language.context tokens s.options.file bound) tokens = .error e) :
    s.parseWithin bound source = .error (.parse e) := by
  obtain ⟨tokens, lexed, parsed⟩ := read
  rw [parseWithin, lexed]
  dsimp only
  rw [parsed]
  rfl

theorem unclosed_fails : (⟨Language.minirust, {}⟩ : Session).parseWithin 0 (Text.Utf8.encode "f(") =
    .error (.parse ⟨.unknownExpression .endOfInput, ⟨1, 3, ""⟩⟩) := by
  refine parseWithin_of_tokens ⟨?tokens, ?lexed, ?read⟩
  case lexed => cbv; rfl
  case read =>
    change MiniRust.grammar.parse (MiniRust.context _ "" 0) _ = _
    rfl

theorem parse_progresses_unclosed :
    let s : Session := ⟨Language.minirust, {}⟩
    let source := Text.Utf8.encode "f("
    ∃ e, s.parseWithin 0 source = .error (.parse e) ∧ e.fault = .unknownExpression .endOfInput ∧
      e.fault ≠ .nestedTooDeeply := by
  intro s source
  have failed : s.parseWithin 0 source = .error (.parse ⟨.unknownExpression .endOfInput, ⟨1, 3, ""⟩⟩) :=
    unclosed_fails
  have known : s.language ∈ Language.all := List.mem_cons_of_mem _ List.mem_cons_self
  refine ⟨_, failed, rfl, fun deep => ?_⟩
  rcases (parse_progresses known source 0).1 with ⟨program, parsed⟩ | ⟨e, refused⟩ | ⟨e, same, -, guarded⟩
  · rw [failed] at parsed
    cases parsed
  · rw [failed] at refused
    cases refused
  · rw [failed] at same
    cases same
    exact absurd (guarded deep).1 (by decide)

end Session

end ScriptKernel
