import ScriptKernel.Yaml.Cell

/-!
Tokens, and the words of which scalars are made.
-/

namespace ScriptKernel.Yaml

inductive TokenKind where
  | version (major minor : Nat)
  /-- A handle and what it stands for in tags. -/
  | handle (name stem : String)
  | documentStart
  | documentEnd
  | streamEnd
  /-- A block begins where a line is indented further, and ends with it. -/
  | blockSequence
  | blockMapping
  | blockEnd
  | listOpen
  | listClose
  | mappingOpen
  | mappingClose
  | comma
  | item
  | key
  | value
  | anchor (name : String)
  | alias (name : String)
  | tag (handle suffix : String)
  | scalar (plain : Bool) (text : String)
deriving Repr, DecidableEq

structure Token where
  kind : TokenKind
  line : Nat
deriving Repr, DecidableEq

def isNameChar (c : Char) : Bool := c.isAlphanum || c = '_' || c = '-'

def isFlowMark (c : Char) : Bool := c ∈ [',', '?', '[', ']', '\x7b', '\x7d']

structure Gap where
  /-- The blanks before the first line break. -/
  blanks : List Char := []
  breaks : List Char := []
  /-- Whether an escaped line break comes first. -/
  escaped : Bool := false
deriving Repr, DecidableEq

namespace Gap

def isBroken (gap : Gap) : Bool := gap.escaped || !gap.breaks.isEmpty

def isEmpty (gap : Gap) : Bool := gap.blanks.isEmpty && !gap.isBroken

def add (gap : Gap) (c : Char) : Gap :=
  if isBreak c then { gap with breaks := gap.breaks ++ [c] }
  else if gap.isBroken then gap
  else { gap with blanks := gap.blanks ++ [c] }

/-- A single line break is a space; of several, all but the first are kept. -/
def text (gap : Gap) : List Char :=
  if gap.escaped then gap.breaks
  else match gap.breaks with
    | [] => gap.blanks
    | first :: more =>
      if first ≠ '\n' then first :: more
      else if more.isEmpty then [' '] else more

end Gap

structure Plain where
  text : List Char
  broken : Bool
  rest : Cells
deriving Repr, DecidableEq

/-- Whether a plain scalar goes on at a character that is no blank. Outside of
brackets a further line has to be indented by `least`. -/
def Plain.goesOn (flow : Bool) (least : Nat) (started : Bool) (gap : Gap) (cells : Cells) : Bool :=
  let c := Cells.char cells
  !(c = endChar || (c = ':' && isGap (Cells.char cells.tail)) || (flow && isFlowMark c) ||
    (!flow && !gap.isEmpty && Cells.column cells < least) ||
    ((!started || !gap.isEmpty) && (c = '#' || Cells.marksDocument cells)))

def Plain.read (flow : Bool) (least : Nat) (text : List Char) (gap : Gap) : Cells → Read Plain
  | [] => .ok ⟨text.reverse, gap.isBroken, []⟩
  | cell :: rest =>
    if isBlank cell.char || isBreak cell.char then
      if gap.isBroken && cell.char = '\t' && cell.column < least then
        .error (.token cell.line .tabInPlain)
      else Plain.read flow least text (gap.add cell.char) rest
    else if Plain.goesOn flow least (!text.isEmpty) gap (cell :: rest) then
      Plain.read flow least (cell.char :: (gap.text.reverse ++ text)) {} rest
    else .ok ⟨text.reverse, gap.isBroken, cell :: rest⟩

end ScriptKernel.Yaml
