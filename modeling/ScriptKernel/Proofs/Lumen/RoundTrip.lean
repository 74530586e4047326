import Mathlib
import ScriptKernel.Proofs.Lumen.DepthBound
import ScriptKernel.Proofs.Lumen.Layout
import ScriptKernel.Proofs.Lumen.WellFormed
import ScriptKernel.Proofs.Lumen.Blocks
import ScriptKernel.Proofs.Parse.Sessions
import ScriptKernel.Proofs.Text.Utf8

/-!
Reading undoes writing. The text of a parsed program goes back through bytes,
lexemes and layout to the parser, which gives the program again, unless the
text is nested deeper than the parser goes.
-/

namespace ScriptKernel

namespace Lumen

theorem session_formed {s : Session} (lumen : s.language = Language.lumen) {source : List UInt8}
    {program : List Stmt} (parsed : s.parse source = .ok program) :
    ∀ statement ∈ program, FormedStmt statement := by
  have preserves : ∀ ctx, s.language.grammar.Preserves ctx FormedExpr FormedStmt := by
    rw [lumen]
    exact grammar_preserves
  exact Session.parse_gives preserves parsed

theorem tokens_render {s : Session} (lumen : s.language = Language.lumen) {program : List Stmt}
    (formed : ∀ s ∈ program, FormedStmt s) :
    ∃ tokens, s.tokens (Text.Utf8.encode (render program)) = .ok tokens ∧
      Rest.bare tokens = stream 0 (linesOfAll 0 program) := by
  have laid : ∀ line ∈ linesOfAll 0 program, Laid line.text :=
    laid_all fun statement member => (formed statement member).laid "if" (by decide) 0
  obtain ⟨tokens, layered, bare⟩ := apply_rows laid (lexed_lines (linesOfAll 0 program))
  refine ⟨tokens, ?_, bare⟩
  have cut : Lexer.lex table (Text.Utf8.encode (render program)) = .ok (Lexer.cut table Place.start
      ((linesOfAll 0 program).flatMap Line.render)) := by
    rw [Lexer.lex, render, Text.Utf8.decode_encode]
  have lexed : s.lex (Text.Utf8.encode (render program)) = .ok (Lexer.cut table Place.start
      ((linesOfAll 0 program).flatMap Line.render)) := by
    rw [Session.lex, lumen, Language.lumen, cut]
    rfl
  rw [Session.tokens, lexed, lumen]
  change (layout.apply {} _).mapError _ = _
  rw [layered]
  rfl

theorem program_unbounded {program : List Stmt} (formed : ∀ s ∈ program, FormedStmt s)
    {tokens : List Lexeme} (bare : Rest.bare tokens = stream 0 (linesOfAll 0 program)) (file : String)
    (bound : Int) :
    ∃ reached, grammar.program ((context tokens file bound).bounded 0) tokens = .ok program reached := by
  have plain : Plain ((context tokens file bound).bounded 0) := ⟨rfl, rfl, rfl, Int.le_refl 0⟩
  obtain ⟨reached, read, -⟩ := reads_program plain formed tokens bare
  exact ⟨reached, read⟩

/-- Every parsed program is read back from its text, whatever source it came
from and under whatever options it is read. -/
theorem parse_render {origin s : Session} (lumenOrigin : origin.language = Language.lumen)
    (lumen : s.language = Language.lumen) {source : List UInt8} {program : List Stmt}
    (parsed : origin.parse source = .ok program)
    (shallow : s.WithinDepth (Text.Utf8.encode (render program))) :
    s.parse (Text.Utf8.encode (render program)) = .ok program := by
  have formed := session_formed lumenOrigin parsed
  obtain ⟨tokens, lexed, bare⟩ := tokens_render lumen formed
  have unbounded := program_unbounded formed bare s.options.file s.maxDepth
  refine Session.parse_of_unbounded ?_ lexed ?_ shallow
  · rw [lumen]
    exact grammar_uniform
  · rw [Session.contextOf, lumen]
    exact unbounded

theorem parsed_loop_line :
    (⟨Language.lumen, {}⟩ : Session).parse (Text.Utf8.encode "while a:-(b)\n") =
      .ok [.whileLoop (.var "a") [.expr (.negate (.var "b"))] false] := by
  refine Session.parse_of_tokens ⟨?tokens, ?lexed, ?read⟩
  case lexed => cbv; rfl
  case read =>
    change grammar.parse (context _ "" 512) _ = _
    rfl

theorem parsed_loop_block :
    (⟨Language.lumen, {}⟩ : Session).parse (Text.Utf8.encode "while a\n    -b\n") =
      .ok [.whileLoop (.var "a") [.expr (.negate (.var "b"))] false] := by
  refine Session.parse_of_tokens ⟨?tokens, ?lexed, ?read⟩
  case lexed => cbv; rfl
  case read =>
    change grammar.parse (context _ "" 512) _ = _
    rfl

theorem parse_render_loop :
    let s : Session := ⟨Language.lumen, {}⟩
    let program : List Stmt := [.whileLoop (.var "a") [.expr (.negate (.var "b"))] false]
    s.parse (Text.Utf8.encode "while a:-(b)\n") = .ok program ∧
      render program = "while a\n    -b\n" ∧
      s.WithinDepth (Text.Utf8.encode (render program)) ∧
      s.parse (Text.Utf8.encode (render program)) = .ok program := by
  intro s program
  have text : render program = "while a\n    -b\n" := rfl
  have shallow : s.WithinDepth (Text.Utf8.encode (render program)) := by
    intro e failed
    rw [text, parsed_loop_block] at failed
    cases failed
  exact ⟨parsed_loop_line, text, shallow, parse_render rfl rfl parsed_loop_line shallow⟩

end Lumen

end ScriptKernel
