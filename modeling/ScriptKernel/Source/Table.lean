import ScriptKernel.Source.Lexeme
import ScriptKernel.Text.Utf8

/-!
What a language tells the lexer: the lexemes of more than one character, and
the texts of the structural lexemes that the layout and the parser refer to by
kind.

Of an entry only the bytes matter, so a table may be made of texts of any kind.
Languages give theirs in characters; a byte string need not be UTF-8.
-/

namespace ScriptKernel

class ToBytes (α : Type) where
  toBytes : α → List UInt8

export ToBytes (toBytes)

instance : ToBytes String := ⟨Text.Utf8.encode⟩

instance : ToBytes (List UInt8) := ⟨id⟩

def firstOccurrences {α : Type} [DecidableEq α] : List α → List α
  | [] => []
  | entry :: entries => entry :: (firstOccurrences entries).filter (· ≠ entry)

namespace Table

abbrev Index (α : Type) := List (UInt8 × List α)

namespace Index

variable {α : Type}

def entriesAt (index : Index α) (byte : UInt8) : List α :=
  (index.lookup byte).getD []

def insert (byte : UInt8) (entry : α) : Index α → Index α
  | [] => [(byte, [entry])]
  | (first, known) :: index =>
    if first = byte then (first, known ++ [entry]) :: index
    else (first, known) :: insert byte entry index

def ofEntries [ToBytes α] (entries : List α) : Index α :=
  entries.foldl (fun index entry =>
    match toBytes entry with
    | [] => index
    | byte :: _ => index.insert byte entry) []

end Index

end Table

/-- The lexeme table: no empty entry, none twice, longest first, entries of
one length in the order in which they were given. The index is kept so that
only the entries that begin with the next byte of a source need be tried. -/
structure Table (α : Type := String) [ToBytes α] where
  entries : List α
  byFirst : Table.Index α := Table.Index.ofEntries entries
  byFirst_eq : byFirst = Table.Index.ofEntries entries := by rfl
deriving Repr, DecidableEq

namespace Table

variable {α : Type} [ToBytes α]

def empty : Table α where
  entries := []

def arranged [DecidableEq α] (entries : List α) : List α :=
  (firstOccurrences (entries.filter (toBytes · ≠ []))).mergeSort
    fun a b => (toBytes b).length ≤ (toBytes a).length

def ofEntries [DecidableEq α] (entries : List α) : Table α where
  entries := arranged entries

/-- Entries added later come after those of their length that are there. -/
def add [DecidableEq α] (table : Table α) (entries : List α) : Table α :=
  ofEntries (table.entries ++ entries)

def findAt? (table : Table α) (byte : UInt8) (fits : α → Bool) : Option α :=
  (table.byFirst.entriesAt byte).find? fits

def longest (table : Table α) : List UInt8 → Nat
  | [] => 0
  | byte :: rest =>
    match table.findAt? byte fun entry => (toBytes entry).isPrefixOf (byte :: rest) with
    | some entry => (toBytes entry).length
    | none => 0

def longest? (table : Table) : List Char → Option String
  | [] => none
  | c :: rest =>
    (String.utf8EncodeChar c).head?.bind fun byte =>
      table.findAt? byte fun entry => entry.toList.isPrefixOf (c :: rest)

end Table

/-- The lexemes that other parts of a language refer to by what they stand
for. -/
inductive Structural where
  | leftParen
  | rightParen
  | newline
  | indent
  | dedent
  | endOfInput
deriving Repr, DecidableEq

namespace Structural

def all : List Structural :=
  [leftParen, rightParen, newline, indent, dedent, endOfInput]

def name : Structural → String
  | leftParen => "LPAREN"
  | rightParen => "RPAREN"
  | newline => "NEWLINE"
  | indent => "INDENT"
  | dedent => "DEDENT"
  | endOfInput => "EOF"

def ofName? (text : String) : Option Structural :=
  all.find? fun kind => kind.name == text

def isMarker : Structural → Bool
  | leftParen | rightParen => false
  | _ => true

end Structural

structure Aliases where
  leftParen : String := "("
  rightParen : String := ")"
  newline : String := "NEWLINE"
  indent : String := "INDENT"
  dedent : String := "DEDENT"
  endOfInput : String := "EOF"
deriving Repr, DecidableEq

namespace Aliases

def text (aliases : Aliases) : Structural → String
  | .leftParen => aliases.leftParen
  | .rightParen => aliases.rightParen
  | .newline => aliases.newline
  | .indent => aliases.indent
  | .dedent => aliases.dedent
  | .endOfInput => aliases.endOfInput

def set (aliases : Aliases) (kind : Structural) (text : String) : Aliases :=
  match kind with
  | .leftParen => { aliases with leftParen := text }
  | .rightParen => { aliases with rightParen := text }
  | .newline => { aliases with newline := text }
  | .indent => { aliases with indent := text }
  | .dedent => { aliases with dedent := text }
  | .endOfInput => { aliases with endOfInput := text }

theorem text_set (aliases : Aliases) (kind other : Structural) (text : String) :
    (aliases.set kind text).text other = if other = kind then text else aliases.text other := by
  cases kind <;> cases other <;> rfl

end Aliases

end ScriptKernel
