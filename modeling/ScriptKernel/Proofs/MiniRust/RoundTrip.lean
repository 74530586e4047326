import Mathlib
import ScriptKernel.Proofs.MiniRust.DepthBound
import ScriptKernel.Proofs.MiniRust.WellFormed
import ScriptKernel.Proofs.Parse.Sessions
import ScriptKernel.Proofs.Text.Utf8

/-!
Reading undoes writing. Layout has no meaning in MiniRust, so that the text of
a parsed program goes back through bytes and lexemes straight to the parser.
-/

namespace ScriptKernel.MiniRust

theorem session_formed {s : Session} (minirust : s.language = Language.minirust) {source : List UInt8}
    {program : List Stmt} (parsed : s.parse source = .ok program) :
    ∀ statement ∈ program, FormedStmt statement := by
  have preserves : ∀ ctx, s.language.grammar.Preserves ctx FormedExpr FormedStmt := by
    rw [minirust]
    exact grammar_preserves
  exact Session.parse_gives preserves parsed

theorem tokens_encode {s : Session} (minirust : s.language = Language.minirust) (text : List Char) :
    ∃ tokens, s.tokens (Text.Utf8.encode (String.ofList text)) = .ok tokens ∧
      Rest.bare tokens = lexed text ++ [.sign "EOF"] := by
  have cut : s.lex (Text.Utf8.encode (String.ofList text)) = .ok (Lexer.cut table Place.start text) := by
    rw [Session.lex, minirust, Language.minirust, Lexer.lex, Text.Utf8.decode_encode]
    rfl
  refine ⟨_, by rw [Session.tokens, cut, minirust]; rfl, ?_⟩
  rw [Rest.bare, List.map_append]
  rfl

theorem program_unbounded {program : List Stmt} (formed : ∀ s ∈ program, FormedStmt s)
    {tokens : List Lexeme} (bare : Rest.bare tokens = lexed (lines 0 program) ++ [.sign "EOF"]) (file : String)
    (bound : Int) :
    ∃ reached, grammar.program ((context tokens file bound).bounded 0) tokens = .ok program reached := by
  have plain : Plain ((context tokens file bound).bounded 0) := ⟨rfl, rfl, rfl, Int.le_refl 0⟩
  obtain ⟨reached, read, -⟩ := reads_program plain formed tokens bare
  exact ⟨reached, read⟩

/-- Every parsed program is read back from its text, whatever source it came
from and under whatever options it is read. -/
theorem reparse_render {origin s : Session} (minirustOrigin : origin.language = Language.minirust)
    (minirust : s.language = Language.minirust) {source : List UInt8} {program : List Stmt}
    (parsed : origin.parse source = .ok program)
    (shallow : s.WithinDepth (Text.Utf8.encode (render program))) :
    s.parse (Text.Utf8.encode (render program)) = .ok program := by
  have formed := session_formed minirustOrigin parsed
  obtain ⟨tokens, lexed, bare⟩ := tokens_encode minirust (lines 0 program)
  have unbounded := program_unbounded formed bare s.options.file s.maxDepth
  refine Session.parse_of_unbounded ?_ lexed ?_ shallow
  · rw [minirust]
    exact grammar_uniform
  · rw [Session.contextOf, minirust]
    exact unbounded

theorem parsed_negation :
    (⟨Language.minirust, {}⟩ : Session).parse (Text.Utf8.encode "-(a)") = .ok [.expr (.intNegate (.var "a"))] := by
  refine Session.parse_of_tokens ⟨?tokens, ?lexed, ?read⟩
  case lexed => cbv; rfl
  case read =>
    change grammar.parse (context _ "" 512) _ = _
    rfl

theorem parsed_negation_statement :
    (⟨Language.minirust, {}⟩ : Session).parse (Text.Utf8.encode "-a;\n") = .ok [.expr (.intNegate (.var "a"))] := by
  refine Session.parse_of_tokens ⟨?tokens, ?lexed, ?read⟩
  case lexed => cbv; rfl
  case read =>
    change grammar.parse (context _ "" 512) _ = _
    rfl

theorem reparse_render_negation :
    let s : Session := ⟨Language.minirust, {}⟩
    let program : List Stmt := [.expr (.intNegate (.var "a"))]
    s.parse (Text.Utf8.encode "-(a)") = .ok program ∧
      render program = "-a;\n" ∧
      s.WithinDepth (Text.Utf8.encode (render program)) ∧
      s.parse (Text.Utf8.encode (render program)) = .ok program := by
  intro s program
  have text : render program = "-a;\n" := rfl
  have shallow : s.WithinDepth (Text.Utf8.encode (render program)) := by
    intro e failed
    rw [text, parsed_negation_statement] at failed
    cases failed
  exact ⟨parsed_negation, text, shallow, reparse_render rfl rfl parsed_negation shallow⟩

end ScriptKernel.MiniRust
