import ScriptKernel.Source.Encoding
import ScriptKernel.Yaml.Fault

/-!
The text of a document as cells: characters that know where they stand. Every
line break is one cell, and the last cell marks the end of the text.
-/

namespace ScriptKernel.Yaml

def isAllowed (c : Char) : Bool :=
  let code := c.toNat
  code = 9 || code = 10 || code = 13 || (0x20 ≤ code && code ≤ 0x7e) || code = 0x85 ||
    (0xa0 ≤ code && code ≤ 0xfffd) || 0x10000 ≤ code

def byteProblem : List UInt8 → ByteProblem
  | [] => .cutCharacter
  | lead :: rest =>
    let width := if lead < 0x80 then 1 else if lead < 0xc0 then 0 else if lead < 0xe0 then 2
      else if lead < 0xf0 then 3 else if lead < 0xf8 then 4 else 0
    let tail := rest.take (width - 1)
    let code := tail.foldl (fun code byte => code * 64 + byte.toNat % 64)
      (lead.toNat % (if width = 2 then 32 else if width = 3 then 16 else 8))
    if width = 0 then .badLeadByte
    else if tail.length + 1 < width then .cutCharacter
    else if tail.any fun byte => byte < 0x80 || 0xc0 ≤ byte then .badTailByte
    else if code < (if width = 2 then 0x80 else if width = 3 then 0x800 else 0x10000) then .longCharacter
    else .badCharacter

def pairedUnits : List (Option Nat) → Except ByteProblem (List Char)
  | [] => .ok []
  | none :: _ => .error .cutUnit
  | some unit :: rest =>
    if Encoding.isLow unit then .error .strayLowSurrogate
    else if Encoding.isHigh unit then
      match rest with
      | some next :: rest =>
        if Encoding.isLow next then do
          let chars ← pairedUnits rest
          return Char.ofNat (0x10000 + (unit - 0xd800) * 0x400 + (next - 0xdc00)) :: chars
        else .error .missingLowSurrogate
      | _ => .error .cutSurrogates
    else do
      let chars ← pairedUnits rest
      return Char.ofNat unit :: chars

/-- The characters of a document. A mark at its start tells the encoding, which
is else UTF-8. -/
def charsOf (bytes : List UInt8) : Except ByteProblem (List Char) := do
  let checked := fun (chars : List Char) =>
    if chars.all isAllowed then Except.ok chars else .error .controlCharacter
  match bytes with
  | 0xff :: 0xfe :: rest => checked (← pairedUnits (Encoding.units .little rest))
  | 0xfe :: 0xff :: rest => checked (← pairedUnits (Encoding.units .big rest))
  | _ =>
    let bytes := match bytes with
      | 0xef :: 0xbb :: 0xbf :: rest => rest
      | _ => bytes
    let (chars, left) := Text.Utf8.decode bytes
    let chars ← checked chars
    if left.isEmpty then .ok chars else .error (byteProblem left)

structure Cell where
  char : Char
  /-- The number of characters before. -/
  index : Nat
  /-- The number of the line, from one on. -/
  line : Nat
  /-- The number of characters before on the line. -/
  column : Nat
deriving Repr, DecidableEq

abbrev Cells := List Cell

def endChar : Char := Char.ofNat 0

def isBreak (c : Char) : Bool :=
  c = '\n' || c = '\r' || c.toNat = 0x85 || c.toNat = 0x2028 || c.toNat = 0x2029

def isBlank (c : Char) : Bool := c = ' ' || c = '\t'

def isGap (c : Char) : Bool := isBlank c || isBreak c || c = endChar

/-- The line breaks that are kept as they are; all others count as one. -/
def breakChar (c : Char) : Char :=
  if c.toNat = 0x2028 ∨ c.toNat = 0x2029 then c else '\n'

def cellsFrom (index line column : Nat) : List Char → Cells
  | [] => [⟨endChar, index, line, column⟩]
  | '\r' :: '\n' :: rest => ⟨'\n', index, line, column⟩ :: cellsFrom (index + 2) (line + 1) 0 rest
  | c :: rest =>
    if isBreak c then ⟨breakChar c, index, line, column⟩ :: cellsFrom (index + 1) (line + 1) 0 rest
    else ⟨c, index, line, column⟩ :: cellsFrom (index + 1) line (column + 1) rest

def cellsOf (text : List Char) : Cells := cellsFrom 0 1 0 text

namespace Cells

def char : Cells → Char
  | cell :: _ => cell.char
  | [] => endChar

def line : Cells → Nat
  | cell :: _ => cell.line
  | [] => 0

def column : Cells → Nat
  | cell :: _ => cell.column
  | [] => 0

def index : Cells → Nat
  | cell :: _ => cell.index
  | [] => 0

def startWith (text : List Char) (cells : Cells) : Bool :=
  text.isPrefixOf (cells.map (·.char)) && isGap (Cells.char (cells.drop text.length))

def marksDocument (cells : Cells) : Bool :=
  Cells.column cells = 0 &&
    (startWith ['-', '-', '-'] (cells.take 4) || startWith ['.', '.', '.'] (cells.take 4))

def skipBlanks (cells : Cells) : Cells := cells.dropWhile fun cell => isBlank cell.char

def skipLine (cells : Cells) : Cells :=
  cells.dropWhile fun cell => !(isBreak cell.char || cell.char = endChar)

def skipComment (cells : Cells) : Cells := if Cells.char cells = '#' then skipLine cells else cells

def closeLine (cells : Cells) : Read Cells :=
  let rest := skipComment (skipBlanks cells)
  if isBreak (Cells.char rest) then .ok rest.tail
  else if Cells.char rest = endChar then .ok rest
  else .error (.token (Cells.line rest) .unclosedHeader)

end Cells

end ScriptKernel.Yaml
