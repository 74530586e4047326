import ScriptKernel.Source.Lexer

/-!
Layout by indentation. The lexemes are grouped into logical lines: newlines
inside brackets and strings do not end a line, comments and leading blanks are
dropped, and lines with nothing left are not lines. Each logical line then
opens or closes blocks according to the number of spaces before it.
-/

namespace ScriptKernel.Layout

structure Indentation where
  /-- Spaces per level. With zero, lines end but blocks are not marked. -/
  width : Nat := 0
  /-- Starts a comment that runs to the end of the line; empty for none. -/
  comment : String := ""
  /-- Lexemes that open and close a string. -/
  quotes : List String := []
  /-- Protects the lexeme after it inside a string. -/
  escape : String := ""
  opening : List String := []
  closing : List String := []
deriving Repr, DecidableEq

inductive Mode where
  | code
  | comment
  | string (quote : String) (escaped : Bool)
deriving Repr, DecidableEq

/-- The logical line being read: the spaces before it, the first tab among
them, its lexemes so far in reverse, and the brackets still open. -/
structure Reading where
  spaces : Nat := 0
  tab : Option Place := none
  kept : List Lexeme := []
  depth : Nat := 0
  mode : Mode := .code
deriving Repr, DecidableEq

/-- A line that holds at least its first lexeme. -/
structure LogicalLine where
  spaces : Nat
  tab : Option Place
  first : Lexeme
  others : List Lexeme
deriving Repr, DecidableEq

def LogicalLine.lexemes (line : LogicalLine) : List Lexeme :=
  line.first :: line.others

def Reading.finish (r : Reading) : Option LogicalLine :=
  match r.kept.reverse with
  | [] => none
  | first :: others => some ⟨r.spaces, r.tab, first, others⟩

namespace Indentation

def isBlank (text : String) : Bool :=
  text == " " || text == "\t" || text == "\x0c"

def keep (rules : Indentation) (r : Reading) (lexeme : Lexeme) : Reading :=
  let kept := lexeme :: r.kept
  if rules.quotes.contains lexeme.text then
    if lexeme.text = "" then { r with kept := kept }
    else { r with kept := kept, mode := .string lexeme.text false }
  else if rules.opening.contains lexeme.text then { r with kept := kept, depth := r.depth + 1 }
  else if rules.closing.contains lexeme.text then { r with kept := kept, depth := r.depth - 1 }
  else { r with kept := kept }

def keepInString (rules : Indentation) (r : Reading) (quote : String) (escaped : Bool)
    (lexeme : Lexeme) : Reading :=
  let mode : Mode :=
    if escaped then .string quote false
    else if lexeme.text = rules.escape then .string quote true
    else if lexeme.text = quote then .code
    else .string quote false
  { r with kept := lexeme :: r.kept, mode := mode }

def keepInCode (rules : Indentation) (r : Reading) (lexeme : Lexeme) : Reading :=
  if lexeme.text = "\r" then r
  else if isBlank lexeme.text then
    if r.kept.isEmpty then
      { r with
        spaces := if lexeme.text = " " then r.spaces + 1 else r.spaces
        tab := if lexeme.text = "\t" then r.tab.or (some lexeme.place) else r.tab }
    else { r with kept := lexeme :: r.kept }
  else if rules.comment ≠ "" ∧ lexeme.text = rules.comment then { r with mode := .comment }
  else rules.keep r lexeme

def linesFrom (rules : Indentation) (r : Reading) : List Lexeme → List LogicalLine
  | [] => r.finish.toList
  | lexeme :: rest =>
    match r.mode with
    | .string quote escaped => rules.linesFrom (rules.keepInString r quote escaped lexeme) rest
    | .comment =>
      if lexeme.text ≠ "\n" then rules.linesFrom r rest
      else if 0 < r.depth then rules.linesFrom { r with mode := .code } rest
      else r.finish.toList ++ rules.linesFrom {} rest
    | .code =>
      if lexeme.text ≠ "\n" then rules.linesFrom (rules.keepInCode r lexeme) rest
      else if 0 < r.depth then rules.linesFrom r rest
      else r.finish.toList ++ rules.linesFrom {} rest

def lines (rules : Indentation) (lexemes : List Lexeme) : List LogicalLine :=
  rules.linesFrom {} lexemes

def innermost (blocks : List Nat) : Nat :=
  blocks.head?.getD 0

def close (spaces : Nat) : List Nat → List Nat
  | [] => []
  | block :: blocks => if spaces < block then close spaces blocks else block :: blocks

def opened (width : Nat) (blocks : List Nat) : Nat → List Nat
  | 0 => blocks
  | count + 1 =>
    let inner := opened width blocks count
    (innermost inner + width) :: inner

def enter (rules : Indentation) (aliases : Aliases) (blocks : List Nat) (line : LogicalLine) :
    Except LexError (List Lexeme × List Nat) :=
  let place := line.first.place
  if rules.width = 0 then .ok ([], blocks)
  else match line.tab with
    | some tab => .error (LexError.atPlace tab .tabInIndentation)
    | none =>
      let current := innermost blocks
      if current < line.spaces then
        let more := line.spaces - current
        if more % rules.width ≠ 0 then
          .error (LexError.atPlace place (.notAMultiple more rules.width))
        else
          let count := more / rules.width
          .ok (List.replicate count (Lexeme.marker aliases.indent place),
            opened rules.width blocks count)
      else
        let left := close line.spaces blocks
        if innermost left ≠ line.spaces then
          .error (LexError.atPlace place (.unmatchedDedent line.spaces))
        else
          .ok (List.replicate (blocks.length - left.length) (Lexeme.marker aliases.dedent place),
            left)

def mark (rules : Indentation) (aliases : Aliases) (blocks : List Nat) :
    List LogicalLine → Except LexError (List Lexeme × List Nat)
  | [] => .ok ([], blocks)
  | line :: rest => do
    let (before, blocks) ← rules.enter aliases blocks line
    let last := (line.others.getLast?).getD line.first
    let newline := Lexeme.marker aliases.newline last.endPlace
    let (after, blocks) ← rules.mark aliases blocks rest
    .ok (before ++ line.lexemes ++ newline :: after, blocks)

def apply (rules : Indentation) (aliases : Aliases) (lexemes : List Lexeme) :
    Except LexError (List Lexeme) := do
  let (marked, blocks) ← rules.mark aliases [] (rules.lines lexemes)
  let finish := Lexeme.endOf lexemes
  .ok (marked ++ List.replicate blocks.length (Lexeme.marker aliases.dedent finish) ++
    [Lexeme.marker aliases.endOfInput finish])

end Indentation

end ScriptKernel.Layout
