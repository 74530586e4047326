import ScriptKernel.Source.Location
import ScriptKernel.Text.Quoted

/-!
Lexemes: the pieces into which a source text is cut, and the markers that a
layout puts between them. A marker covers no source text.
-/

namespace ScriptKernel

structure Lexeme where
  text : String
  /-- Where the lexeme starts. -/
  place : Place
  /-- The byte offset behind it. -/
  stop : Nat
  /-- Whether it is a marker and not source text. -/
  synthetic : Bool := false
deriving Repr, DecidableEq, Inhabited

namespace Lexeme

def endPlace (l : Lexeme) : Place :=
  if l.synthetic then ⟨l.stop, l.place.line, l.place.column⟩
  else
    let reached := l.place.after l.text.toList
    ⟨l.stop, reached.line, reached.column⟩

def marker (text : String) (place : Place) : Lexeme :=
  ⟨text, place, place.offset, true⟩

def endOf (lexemes : List Lexeme) : Place :=
  match lexemes.getLast? with
  | some last => last.endPlace
  | none => Place.start

def concat (lexemes : List Lexeme) : String :=
  String.join ((lexemes.filter (!·.synthetic)).map (·.text))

def render (l : Lexeme) : String :=
  let position := Text.decimal l.place.line ++ ":" ++ Text.decimal l.place.column
  if l.synthetic then "<" ++ l.text ++ "> " ++ position
  else
    Text.quote l.text ++ " " ++ position ++ " [" ++
      (Span.mk l.place.offset l.stop).render ++ "]"

end Lexeme

end ScriptKernel
