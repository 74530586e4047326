import ScriptKernel.Source.Table
import ScriptKernel.Diagnostic
import ScriptKernel.Text.Utf8

/-!
Cutting source bytes into lexemes. At every place the longest table entry that
starts there is taken, or else a single character. Nothing is classified and
nothing is lost: digits, letters, blanks and newlines all come out as lexemes.
The only fault is input that is not UTF-8.
-/

namespace ScriptKernel.Lexer

/-- How many characters after the first belong to the lexeme that starts
here. -/
def extra (table : Table) (input : List Char) : Nat :=
  match table.longest? input with
  | some entry => entry.length - 1
  | none => 0

def cut (table : Table) (place : Place) : List Char → List Lexeme
  | [] => []
  | c :: rest =>
    let more := extra table (c :: rest)
    let text := c :: rest.take more
    let next := place.after text
    ⟨String.ofList text, place, next.offset, false⟩ :: cut table next (rest.drop more)
termination_by text => text.length
decreasing_by simp only [List.length_drop, List.length_cons]; omega

def lex (table : Table) (source : List UInt8) : Except LexError (List Lexeme) :=
  let (chars, left) := Text.Utf8.decode source
  match left with
  | [] => .ok (cut table Place.start chars)
  | byte :: _ => .error (LexError.atPlace (Place.start.after chars) (.invalidByte byte))

end ScriptKernel.Lexer
