import ScriptKernel.Yaml.Token.Block
import ScriptKernel.Yaml.Token.Name
import ScriptKernel.Yaml.Token.Quoted

/-!
The tokens of a document, cut from its cells as they are asked for. Whether a
token is a key shows only at the colon behind it, so tokens wait in a queue
while a key may have started with them, and the mark of a key is put before them
then.
-/

namespace ScriptKernel.Yaml

structure KeyStart where
  /-- The number of the token. -/
  number : Nat
  /-- Whether nothing but a key can stand there. -/
  required : Bool
  index : Nat
  line : Nat
  column : Nat
deriving Repr, DecidableEq

structure Stream where
  cells : Cells
  /-- Tokens that are cut but not taken. -/
  queue : List Token := []
  /-- The number of tokens that were taken. -/
  taken : Nat := 0
  /-- Where a key may have started inside of the innermost brackets. -/
  start : Option KeyStart := none
  /-- The same for the brackets around them, and for what is around all. -/
  starts : List (Option KeyStart) := []
  /-- The indentation of the innermost block, -1 when there is none. -/
  indent : Int := -1
  /-- The indentations of the blocks around it. -/
  indents : List Int := []
  /-- Whether a key may start at the next token. -/
  keyAllowed : Bool := true
deriving Repr, DecidableEq

namespace Stream

def ofChars (chars : List Char) : Stream := { cells := cellsOf chars }

def inFlow (s : Stream) : Bool := !s.starts.isEmpty

def line (s : Stream) : Nat := Cells.line s.cells

def column (s : Stream) : Nat := Cells.column s.cells

def char (s : Stream) : Char := Cells.char s.cells

def put (s : Stream) (kind : TokenKind) : Stream :=
  { s with queue := s.queue ++ [⟨kind, s.line⟩] }

def inserted (s : Stream) (number : Nat) (token : Token) : List Token :=
  let place := number - s.taken
  s.queue.take place ++ token :: s.queue.drop place

def mark (s : Stream) (kind : TokenKind) : Stream :=
  { s.put kind with cells := s.cells.tail }

/-- A key has one line and at most 1024 characters. -/
def isStale (s : Stream) (k : KeyStart) : Bool :=
  k.line < s.line || k.index + 1024 < Cells.index s.cells

def giveUp (s : Stream) (start : Option KeyStart) : Read (Option KeyStart) :=
  match start with
  | some k => if k.required then .error (.token s.line .missingColon) else .ok none
  | none => .ok none

def dropStale (s : Stream) : Read Stream := do
  let fresh := fun (start : Option KeyStart) =>
    if start.any s.isStale then s.giveUp start else .ok start
  let starts ← s.starts.reverse.mapM fresh
  let start ← fresh s.start
  return { s with start := start, starts := starts.reverse }

def dropStart (s : Stream) : Read Stream := do
  return { s with start := ← s.giveUp s.start }

def noteStart (s : Stream) : Read Stream :=
  if s.keyAllowed then do
    let s ← s.dropStart
    let k : KeyStart :=
      { number := s.taken + s.queue.length
        required := !s.inFlow && s.indent = s.column
        index := Cells.index s.cells, line := s.line, column := s.column }
    return { s with start := some k }
  else .ok s

/-- Starts a block at a column that is further than the current one; its token
comes before the token with the given number. -/
def openBlock (s : Stream) (column : Nat) (number line : Nat) (kind : TokenKind) : Stream :=
  if s.inFlow || (column : Int) ≤ s.indent then s
  else
    { s with
      indent := column
      indents := s.indent :: s.indents
      queue := s.inserted number ⟨kind, line⟩ }

def openHere (s : Stream) (kind : TokenKind) : Stream :=
  s.openBlock s.column (s.taken + s.queue.length) s.line kind

def closeBlocks (column : Int) (line : Nat) (queue : List Token) (indent : Int) :
    List Int → List Token × Int × List Int
  | [] => (queue, indent, [])
  | outer :: indents =>
    if indent ≤ column then (queue, indent, outer :: indents)
    else closeBlocks column line (queue ++ [⟨.blockEnd, line⟩]) outer indents

def close (s : Stream) (column : Int) (line : Nat) : Stream :=
  if s.inFlow then s
  else
    let (queue, indent, indents) := closeBlocks column line s.queue s.indent s.indents
    { s with queue := queue, indent := indent, indents := indents }

/-- Skips to the next token. A key may start on a new line; a tab may not stand
where a key may start. -/
def skipSpace (flow : Bool) : Bool → Cells → Bool × Cells
  | allowed, cell :: rest =>
    if cell.char = '\uFEFF' && cell.column = 0 then skipSpace flow allowed rest
    else if cell.char = ' ' || (cell.char = '\t' && (flow || !allowed)) then skipSpace flow allowed rest
    else if isBreak cell.char then skipSpace flow (allowed || !flow) rest
    else (allowed, cell :: rest)
  | allowed, [] => (allowed, [])

def skipComments (flow : Bool) : Nat → Bool → Cells → Bool × Cells
  | steps + 1, allowed, cells =>
    let (allowed, rest) := skipSpace flow allowed cells
    if Cells.char rest = '#' then skipComments flow steps allowed (Cells.skipLine rest)
    else (allowed, rest)
  | 0, allowed, cells => (allowed, cells)

/-- The end of the text counts as the start of a line. -/
def atNewLine (s : Stream) : Stream :=
  if s.column = 0 then s
  else { s with cells := [⟨endChar, Cells.index s.cells, s.line + 1, 0⟩] }

def leaveBlocks (s : Stream) : Read Stream := do
  let s ← (s.close (-1) s.line).dropStart
  return { s with keyAllowed := false }

def finish (s : Stream) : Read Stream := do
  let s ← s.atNewLine.leaveBlocks
  return s.put .streamEnd

def putDirective (s : Stream) : Read Stream := do
  let s ← s.leaveBlocks
  let (kind, rest) ← directive s.cells.tail
  return { s.put kind with cells := rest }

def putDocumentMark (s : Stream) (kind : TokenKind) : Read Stream := do
  let s ← s.leaveBlocks
  return { s.put kind with cells := s.cells.drop 3 }

def openFlow (s : Stream) (kind : TokenKind) : Read Stream := do
  let s ← s.noteStart
  return { s.mark kind with start := none, starts := s.start :: s.starts, keyAllowed := true }

def closeFlow (s : Stream) (kind : TokenKind) : Read Stream := do
  let s ← s.dropStart
  let s := match s.starts with
    | start :: starts => { s with start := start, starts := starts }
    | [] => s
  return { s.mark kind with keyAllowed := false }

def putComma (s : Stream) : Read Stream := do
  let s ← s.dropStart
  return { s.mark .comma with keyAllowed := true }

def putItem (s : Stream) : Read Stream := do
  if !s.inFlow && !s.keyAllowed then .error (.token s.line .strayItem)
  else
    let s ← (s.openHere .blockSequence).dropStart
    return { s.mark .item with keyAllowed := true }

def putKey (s : Stream) : Read Stream := do
  if !s.inFlow && !s.keyAllowed then .error (.token s.line .strayKey)
  else
    let s ← (s.openHere .blockMapping).dropStart
    return { s.mark .key with keyAllowed := !s.inFlow }

def putValue (s : Stream) : Read Stream :=
  match s.start with
  | some k =>
    let s := { s with start := none, queue := s.inserted k.number ⟨.key, k.line⟩ }
    let s := s.openBlock k.column k.number k.line .blockMapping
    .ok { s.mark .value with keyAllowed := false }
  | none =>
    if !s.inFlow && !s.keyAllowed then .error (.token s.line .strayValue)
    else
      let s := s.openHere .blockMapping
      .ok { s.mark .value with keyAllowed := !s.inFlow }

def putWord (s : Stream) (cut : Cells → Read (TokenKind × Cells)) : Read Stream := do
  let s ← s.noteStart
  let (kind, rest) ← cut s.cells
  return { s.put kind with cells := rest, keyAllowed := false }

def putQuoted (s : Stream) (double : Bool) : Read Stream :=
  s.putWord fun cells => do
    let (text, rest) ← quoted double cells.length [] {} cells.tail
    return (.scalar false (String.ofList text), rest)

def putBlock (s : Stream) (folds : Bool) : Read Stream := do
  let s ← s.dropStart
  let (text, rest) ← blockScalar folds s.indent s.cells.tail
  return { s.put (.scalar false (String.ofList text)) with cells := rest, keyAllowed := true }

def putPlain (s : Stream) : Read Stream := do
  let s ← s.noteStart
  let plain ← Plain.read s.inFlow (s.indent + 1).toNat [] {} s.cells
  return { s.put (.scalar true (String.ofList plain.text)) with
    cells := plain.rest, keyAllowed := plain.broken }

def startsPlain (s : Stream) : Bool :=
  let c := s.char
  let next := Cells.char s.cells.tail
  if c = '-' then !isBlank next
  else if c = '?' || c = ':' then !s.inFlow && !isGap next
  else !(isGap c || c ∈ [',', '[', ']', '\x7b', '\x7d', '#', '&', '*', '!', '|', '>', '\x27', '"', '%',
    '@', '\x60'])

def cut (s : Stream) : Read Stream := do
  let (allowed, rest) := skipComments s.inFlow s.cells.length s.keyAllowed s.cells
  let s ← dropStale { s with cells := rest, keyAllowed := allowed }
  let s := s.close s.column s.line
  let c := s.char
  let gapNext := isGap (Cells.char s.cells.tail)
  if c = endChar then s.finish
  else if c = '%' && s.column = 0 then s.putDirective
  else if Cells.marksDocument s.cells then
    s.putDocumentMark (if c = '-' then .documentStart else .documentEnd)
  else if c = '[' then s.openFlow .listOpen
  else if c = '\x7b' then s.openFlow .mappingOpen
  else if c = ']' then s.closeFlow .listClose
  else if c = '\x7d' then s.closeFlow .mappingClose
  else if c = ',' then s.putComma
  else if c = '-' && gapNext then s.putItem
  else if c = '?' && (s.inFlow || gapNext) then s.putKey
  else if c = ':' && (s.inFlow || gapNext) then s.putValue
  else if c = '*' then s.putWord fun cells => do
    let (name, rest) ← anchorName cells.tail
    return (.alias name, rest)
  else if c = '&' then s.putWord fun cells => do
    let (name, rest) ← anchorName cells.tail
    return (.anchor name, rest)
  else if c = '!' then s.putWord tag
  else if c = '|' && !s.inFlow then s.putBlock false
  else if c = '>' && !s.inFlow then s.putBlock true
  else if c = '\x27' || c = '"' then s.putQuoted (c = '"')
  else if s.startsPlain then s.putPlain
  else .error (.token s.line .badStart)

def waits (s : Stream) : Bool :=
  (s.start :: s.starts).any fun start => start.any (·.number = s.taken)

def settle : Nat → Stream → Read Stream
  | 0, s => .ok s
  | steps + 1, s =>
    if s.queue.isEmpty then do settle steps (← s.cut)
    else do
      let s ← s.dropStale
      if s.waits then settle steps (← s.cut) else return s

def peek (s : Stream) : Read (Token × Stream) := do
  let s ← settle (s.cells.length + 2) s
  match s.queue with
  | token :: _ => return (token, s)
  | [] => return (⟨.streamEnd, s.line⟩, s)

def skip (s : Stream) : Stream :=
  { s with queue := s.queue.tail, taken := s.taken + 1 }

end Stream

end ScriptKernel.Yaml
