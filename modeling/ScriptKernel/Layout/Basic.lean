import ScriptKernel.Layout.Indentation

/-!
Layouts: the transformations of the lexeme stream between lexer and parser. A
layout may drop blanks and put in markers, but keeps the source lexemes that
remain in order.
-/

namespace ScriptKernel

inductive Layout where
  | identity
  /-- One end marker behind the last lexeme. -/
  | endMarker
  | indentation (rules : Layout.Indentation)
deriving Repr, DecidableEq

namespace Layout

def apply (aliases : Aliases) (layout : Layout) (lexemes : List Lexeme) :
    Except LexError (List Lexeme) :=
  match layout with
  | .identity => .ok lexemes
  | .endMarker => .ok (lexemes ++ [Lexeme.marker aliases.endOfInput (Lexeme.endOf lexemes)])
  | .indentation rules => rules.apply aliases lexemes

def applyAll (aliases : Aliases) (layouts : List Layout) (lexemes : List Lexeme) :
    Except LexError (List Lexeme) :=
  layouts.foldlM (fun stream layout => layout.apply aliases stream) lexemes

end Layout

end ScriptKernel
