import ScriptKernel.Yaml.Token.Basic

/-!
Scalars that are blocks of lines: literal ones keep their lines, in folded ones
a single line break is a space.
-/

namespace ScriptKernel.Yaml

/-- What becomes of the line breaks at the end of a block. -/
inductive Chomping where
  | strip
  | clip
  | keep
deriving Repr, DecidableEq

structure BlockHeader where
  chomping : Chomping := .clip
  /-- The indentation, if it is given. -/
  width : Option Nat := none
deriving Repr, DecidableEq

def chomping? (c : Char) : Option Chomping :=
  if c = '+' then some .keep else if c = '-' then some .strip else none

def blockWidth (cells : Cells) : Read (Option Nat × Cells) :=
  let c := Cells.char cells
  if c = '0' then .error (.token (Cells.line cells) .zeroIndent)
  else if c.isDigit then .ok (some (c.toNat - '0'.toNat), cells.tail)
  else .ok (none, cells)

def blockHeader (cells : Cells) : Read (BlockHeader × Cells) :=
  match chomping? (Cells.char cells) with
  | some chomping => do
    let (width, rest) ← blockWidth cells.tail
    return (⟨chomping, width⟩, rest)
  | none => do
    let (width, rest) ← blockWidth cells
    match width, chomping? (Cells.char rest) with
    | some _, some chomping => return (⟨chomping, width⟩, rest.tail)
    | _, _ => return (⟨.clip, width⟩, rest)

/-- The line breaks before the next line that is not empty, together with the
furthest column that was reached. Without a known indentation all spaces belong
to it. -/
def blockBreaks (indent : Option Nat) (furthest : Nat) (breaks : List Char) :
    Cells → Read (Nat × List Char × Cells)
  | [] => .ok (furthest, breaks, [])
  | cell :: rest =>
    let within := match indent with
      | some indent => cell.column < indent
      | none => true
    if within && cell.char = ' ' then blockBreaks indent furthest breaks rest
    else if within && cell.char = '\t' then .error (.token cell.line .tabInBlock)
    else if isBreak cell.char then
      blockBreaks indent (max furthest cell.column) (breaks ++ [cell.char]) rest
    else .ok (max furthest cell.column, breaks, cell :: rest)

/-- The part of a block that is read: its text, the break of its last line, the
empty lines behind, and whether its last line starts with a blank. -/
structure BlockText where
  text : List Char := []
  lineBreak : List Char := []
  breaks : List Char := []
  blank : Bool := false
deriving Repr, DecidableEq

/-- A line goes to the text with the breaks before it. In a folded block a break
between two lines that start with no blank is a space, or left out before empty
lines. -/
def BlockText.add (b : BlockText) (folds : Bool) (line lineBreak breaks : List Char) : BlockText :=
  let blank := line.head?.any isBlank
  let before :=
    if folds && !b.blank && !blank && b.lineBreak = ['\n'] then
      if b.breaks.isEmpty then [' '] else []
    else b.lineBreak
  ⟨b.text ++ before ++ b.breaks ++ line, lineBreak, breaks, blank⟩

def blockLines (folds : Bool) (indent : Nat) : Nat → BlockText → Cells → Read (BlockText × Cells)
  | steps + 1, b, cells =>
    if Cells.column cells ≠ indent || Cells.char cells = endChar then .ok (b, cells)
    else do
      let after := Cells.skipLine cells
      let line := (cells.take (cells.length - after.length)).map (·.char)
      let lineBreak := if isBreak (Cells.char after) then [Cells.char after] else []
      let (_, breaks, rest) ← blockBreaks (some indent) 0 [] (after.drop lineBreak.length)
      blockLines folds indent steps (b.add folds line lineBreak breaks) rest
  | 0, b, cells => .ok (b, cells)

/-- A block whose mark is read. Its lines are indented further than the block
around it, whose indentation is -1 when there is none. -/
def blockScalar (folds : Bool) (around : Int) (cells : Cells) : Read (List Char × Cells) := do
  let (header, rest) ← blockHeader cells
  let rest ← Cells.closeLine rest
  let given := header.width.map fun width => (max around 0).toNat + width
  let (furthest, breaks, rest) ← blockBreaks given 0 [] rest
  let indent := given.getD (max furthest (max (around + 1).toNat 1))
  let (b, rest) ← blockLines folds indent rest.length { breaks := breaks } rest
  let kept := match header.chomping with
    | .strip => []
    | .clip => b.lineBreak
    | .keep => b.lineBreak ++ b.breaks
  return (b.text ++ kept, rest)

end ScriptKernel.Yaml
