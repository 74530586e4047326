import ScriptKernel.Text.Quoted
import ScriptKernel.Text.Utf8
import ScriptKernel.Yaml.Cell
import ScriptKernel.Yaml.Scalar

/-!
Writing scalars as values of a block. A text stands plain unless it would then
be read as something else: in double quotes if it would mean something other
than a text, in single quotes if it would be read as other structure. A text of
several lines becomes a literal block. Lines longer than 80 columns are broken
at a space.
-/

namespace ScriptKernel.Yaml

def margin : List Char := [' ', ' ']

def lastColumn : Nat := 80

def isPrintable (c : Char) : Bool :=
  c = '\n' || (0x20 ≤ c.toNat && c.toNat ≤ 0x7e) ||
    (0xa0 ≤ c.toNat && c.toNat ≤ 0xfffd && c.toNat ≠ 0xfeff)

def beforeBlank : List Char → Bool
  | [] => true
  | c :: _ => c = ' ' || c = '\t'

def hasMark (afterBlank : Bool) : List Char → Bool
  | [] => false
  | c :: rest =>
    (c = ':' && beforeBlank rest) || (c = '#' && afterBlank) ||
      hasMark (c = ' ' || c = '\t' || isBreak c) rest

def isStructural : List Char → Bool
  | [] => false
  | c :: rest =>
    let starts := "---".toList.isPrefixOf (c :: rest) || "...".toList.isPrefixOf (c :: rest)
    let first :=
      if c ∈ ['?', ':', '-'] then beforeBlank rest
      else c ∈ ['#', ',', '[', ']', '\x7b', '\x7d', '&', '*', '!', '|', '>', '\x27', '"', '%', '@',
        '\x60']
    starts || first || hasMark (c = ' ' || c = '\t' || isBreak c) rest

def hasPair (p q : Char → Bool) : List Char → Bool
  | c :: d :: rest => (p c && q d) || hasPair p q (d :: rest)
  | _ => false

def isSpace (c : Char) : Bool := c = ' '

/-- Texts that only double quotes can hold. -/
def needsEscapes (text : List Char) : Bool :=
  text.any (fun c => !isPrintable c) || hasPair isSpace isBreak text

def allowsPlain (text : List Char) : Bool :=
  let edge := fun (c : Option Char) => c.any fun c => isSpace c || isBreak c
  !(edge text.head? || edge text.getLast? || needsEscapes text || text.any isBreak ||
    isStructural text)

def allowsSingle (text : List Char) : Bool :=
  !(needsEscapes text || hasPair isBreak isSpace text)

def allowsLiteral (text : List Char) : Bool :=
  !(needsEscapes text || text.getLast? = some ' ')

/-- Writes a text from a column on, with a line break for a space that lies
beyond the last column and has no space beside it. Behind a break of its own
the text goes on after the margin. -/
def folded (spaced : Bool) (column : Nat) : List Char → List Char
  | [] => []
  | c :: rest =>
    if c = ' ' && !spaced && lastColumn < column && rest.head?.any (· ≠ ' ') then
      '\n' :: margin ++ folded true margin.length rest
    else if isBreak c then
      let indent := if rest.head?.any (!isBreak ·) then margin else []
      c :: indent ++ folded spaced indent.length rest
    else c :: folded (c = ' ') (column + 1) rest

def single (column : Nat) (text : List Char) : List Char :=
  let doubled := text.flatMap fun c => if c = '\x27' then [c, c] else [c]
  '\x27' :: folded true (column + 1) doubled ++ ['\x27']

def upperHex (width n : Nat) : List Char :=
  (Text.hexDigits width n).map Char.toUpper

def escapeLetters : List (Nat × Char) := [
  (0, '0'), (7, 'a'), (8, 'b'), (9, 't'), (10, 'n'), (11, 'v'), (12, 'f'), (13, 'r'), (27, 'e'),
  (34, '"'), (92, '\\'), (0x85, 'N'), (0xa0, '_'), (0x2028, 'L'), (0x2029, 'P')]

def escaped (c : Char) : List Char :=
  match escapeLetters.lookup c.toNat with
  | some letter => ['\\', letter]
  | none =>
    if c.toNat ≤ 0xff then '\\' :: 'x' :: upperHex 2 c.toNat
    else if c.toNat ≤ 0xffff then '\\' :: 'u' :: upperHex 4 c.toNat
    else '\\' :: 'U' :: upperHex 8 c.toNat

def doubleText (spaced : Bool) (column : Nat) : List Char → List Char
  | [] => []
  | c :: rest =>
    if !isPrintable c || isBreak c || c = '"' || c = '\\' then
      let text := escaped c
      text ++ doubleText false (column + text.length) rest
    else if c = ' ' && !spaced && lastColumn < column && !rest.isEmpty then
      let mark := if rest.head? = some ' ' then ['\\'] else []
      '\n' :: margin ++ mark ++ doubleText true (margin.length + mark.length) rest
    else c :: doubleText (c = ' ') (column + 1) rest

def double (column : Nat) (text : List Char) : List Char :=
  '"' :: doubleText true (column + 1) text ++ ['"']

def literalMarks (text : List Char) : List Char :=
  let hint := if text.head?.any fun c => isSpace c || isBreak c then ['2'] else []
  let chomp := match text.reverse with
    | last :: before =>
      if !isBreak last then ['-']
      else if before.head?.all isBreak then ['+'] else []
    | [] => ['-']
  hint ++ chomp

def literalText (atStart : Bool) : List Char → List Char
  | [] => []
  | c :: rest =>
    if isBreak c then c :: literalText true rest
    else (if atStart then margin else []) ++ c :: literalText false rest

def scalar (column : Nat) (text : String) : List Char :=
  let chars := text.toList
  let means := match meaning true text with
    | .text => isBase60 chars
    | _ => true
  if chars.contains '\n' then
    if allowsLiteral chars then
      let body := literalText true chars
      '|' :: literalMarks chars ++ '\n' :: body ++ (if body.getLast?.any isBreak then [] else ['\n'])
    else double column chars ++ ['\n']
  else if means then double column chars ++ ['\n']
  else if allowsPlain chars then folded true column chars ++ ['\n']
  else if allowsSingle chars then single column chars ++ ['\n']
  else double column chars ++ ['\n']

end ScriptKernel.Yaml
