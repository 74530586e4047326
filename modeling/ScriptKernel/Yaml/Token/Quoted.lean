import ScriptKernel.Number.Integer
import ScriptKernel.Yaml.Token.Basic

/-!
Scalars in quotes. In single quotes only the quote is doubled; in double quotes
there are escapes.
-/

namespace ScriptKernel.Yaml

def escapes : List (Char × Nat) := [
  ('0', 0), ('a', 7), ('b', 8), ('t', 9), ('\t', 9), ('n', 10), ('v', 11), ('f', 12), ('r', 13),
  ('e', 27), (' ', 32), ('"', 34), ('\x27', 39), ('\\', 92), ('N', 0x85), ('_', 0xa0), ('L', 0x2028),
  ('P', 0x2029)]

def codeWidth? (c : Char) : Option Nat :=
  [('x', 2), ('u', 4), ('U', 8)].lookup c

def escape (line : Nat) (cells : Cells) : Read (Char × Cells) :=
  match escapes.lookup (Cells.char cells) with
  | some code => .ok (Char.ofNat code, cells.tail)
  | none =>
    match codeWidth? (Cells.char cells) with
    | none => .error (.token line .badEscape)
    | some width =>
      let digits := (cells.tail.take width).map (·.char)
      if digits.length < width || !digits.all Integer.isHexDigit then .error (.token line .badCode)
      else
        let code := digits.foldl (fun code c => code * 16 + Integer.digitValue c) 0
        if code.isValidChar then .ok (Char.ofNat code, cells.tail.drop width)
        else .error (.token line .badCodePoint)

/-- Reads on a scalar in quotes, of which a text in reverse and a gap are read.
There are no more steps than cells. -/
def quoted (double : Bool) : Nat → List Char → Gap → Cells → Read (List Char × Cells)
  | steps + 1, text, gap, cell :: rest =>
    if isBlank cell.char || isBreak cell.char then quoted double steps text (gap.add cell.char) rest
    else if Cells.marksDocument (cell :: rest) then .error (.token cell.line .strayMark)
    else if cell.char = endChar then .error (.token cell.line .unclosedQuote)
    else
      let text := gap.text.reverse ++ text
      if double then
        if cell.char = '"' then .ok (text.reverse, rest)
        else if cell.char ≠ '\\' then quoted double steps (cell.char :: text) {} rest
        else if isBreak (Cells.char rest) then quoted double steps text { escaped := true } rest.tail
        else do
          let (c, rest) ← escape cell.line rest
          quoted double steps (c :: text) {} rest
      else if cell.char ≠ '\x27' then quoted double steps (cell.char :: text) {} rest
      else if Cells.char rest = '\x27' then quoted double steps ('\x27' :: text) {} rest.tail
      else .ok (text.reverse, rest)
  | _, _, _, cells => .error (.token (Cells.line cells) .unclosedQuote)

end ScriptKernel.Yaml
