import ScriptKernel.Proofs.Parse.DepthBound
import ScriptKernel.Proofs.Parse.Yields
import ScriptKernel.Session.Basic

/-!
What a session parses. A session runs its grammar on its stream of lexemes
under its depth bound, which can do no more than refuse a source.
-/

namespace ScriptKernel.Session

variable {s : Session} {source : List UInt8} {tokens : List Lexeme} {program : List Stmt}

/-- Parsing the source does not run into the depth bound. -/
def WithinDepth (s : Session) (source : List UInt8) : Prop :=
  ∀ e, s.parse source = .error (.parse e) → e.fault ≠ .nestedTooDeeply

def contextOf (s : Session) (tokens : List Lexeme) : Context :=
  s.language.context tokens s.options.file s.maxDepth

theorem parse_tokens (lexed : s.tokens source = .ok tokens) :
    s.parse source = (s.language.grammar.parse (s.contextOf tokens) tokens).mapError .parse := by
  rw [Session.parse, lexed]
  rfl

theorem parse_of_tokens (read : ∃ tokens, s.tokens source = .ok tokens ∧
    s.language.grammar.parse (s.contextOf tokens) tokens = .ok program) : s.parse source = .ok program := by
  obtain ⟨tokens, lexed, parsed⟩ := read
  rw [parse_tokens lexed, parsed]
  rfl

theorem tokens_of_parse (parsed : s.parse source = .ok program) : ∃ tokens, s.tokens source = .ok tokens ∧
    s.language.grammar.parse (s.contextOf tokens) tokens = .ok program := by
  cases lexed : s.tokens source with
  | error e =>
    rw [Session.parse, lexed] at parsed
    cases parsed
  | ok tokens =>
    rw [parse_tokens lexed] at parsed
    cases read : s.language.grammar.parse (s.contextOf tokens) tokens with
    | error e =>
      rw [read] at parsed
      cases parsed
    | ok found =>
      rw [read] at parsed
      cases parsed
      exact ⟨tokens, rfl, read⟩

theorem parse_gives {E : Expr → Prop} {S : Stmt → Prop} (preserves : ∀ ctx, s.language.grammar.Preserves ctx E S)
    (parsed : s.parse source = .ok program) : ∀ statement ∈ program, S statement := by
  obtain ⟨tokens, -, read⟩ := tokens_of_parse parsed
  exact Grammar.parse_gives (preserves _) read

theorem parse_of_unbounded (uniform : s.language.grammar.Uniform) (lexed : s.tokens source = .ok tokens)
    (unbounded : ∃ reached, s.language.grammar.program ((s.contextOf tokens).bounded 0) tokens = .ok program reached)
    (shallow : s.WithinDepth source) : s.parse source = .ok program := by
  obtain ⟨reached, read⟩ := unbounded
  have answer := parse_tokens lexed
  rcases Grammar.program_upToDepth uniform (tighter_of_nonpos (Int.le_refl 0)) tokens with same | deep
  · rw [answer, Grammar.parse, same.trans read]
    rfl
  · -- The bound refuses the source, which is excluded.
    cases result : s.language.grammar.program (s.contextOf tokens) tokens with
    | ok found reached =>
      rw [result] at deep
      exact deep.elim
    | error e reached =>
      rw [result] at deep
      rw [Grammar.parse, result] at answer
      exact absurd deep (shallow e answer)

end ScriptKernel.Session
