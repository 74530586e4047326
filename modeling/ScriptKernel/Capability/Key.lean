import ScriptKernel.Diagnostic
import ScriptKernel.Text.Blank
import ScriptKernel.Text.Letter

/-!
Names of host operations. A key is a name with an optional backend; a selector
is a text that lists the keys to try, such as `fs|mem:read`.
-/

namespace ScriptKernel

/-- A host operation by name; an empty backend is the default one. -/
structure Key where
  backend : String
  name : String
deriving Repr, DecidableEq, Inhabited

namespace Key

def render (k : Key) : String :=
  if k.backend = "" then k.name else k.backend ++ ":" ++ k.name

def precedes (a b : Key) : Bool :=
  if a.backend = b.backend then a.name ≤ b.name else a.backend < b.backend

end Key

namespace Selector

def isName : List Char → Bool
  | [] => false
  | c :: cs => Text.isNameStart c && cs.all Text.isWordChar

/-- Cuts at the last colon outside parentheses, reading from the right. The
depth counts the closing parentheses passed that are still unmatched, and
falls below zero at an opening one too many. -/
def cutReversed (depth : Int) (passed : List Char) : List Char → Option (List Char × List Char)
  | [] => none
  | c :: cs =>
    if c = ':' ∧ depth = 0 then some (cs.reverse, passed)
    else
      let depth := if c = ')' then depth + 1 else if c = '(' then depth - 1 else depth
      cutReversed depth (c :: passed) cs

def cutAtColon (text : List Char) : Option (List Char × List Char) :=
  cutReversed 0 [] text.reverse

def closesEarly (depth : Int) : List Char → Bool
  | [] => false
  | c :: cs =>
    let next := if c = '(' then depth + 1 else if c = ')' then depth - 1 else depth
    (c = ')' && next = 0 && !cs.isEmpty) || closesEarly next cs

def isWrapped (text : List Char) : Bool :=
  2 ≤ text.length && text.head? == some '(' && text.getLast? == some ')' && !closesEarly 0 text

def unwrap : Nat → List Char → List Char
  | 0, text => text
  | fuel + 1, text =>
    if isWrapped text then unwrap fuel (Text.trimChars (text.tail.dropLast)) else text

def splitBars (depth : Int) : List Char → List (List Char)
  | [] => [[]]
  | c :: cs =>
    if c = '|' ∧ depth = 0 then [] :: splitBars depth cs
    else
      let depth := if c = '(' then depth + 1 else if c = ')' then depth - 1 else depth
      match splitBars depth cs with
      | piece :: pieces => (c :: piece) :: pieces
      | [] => [[c]]

/-- A backend without blanks and one parenthesis on either side. -/
def backendName (piece : List Char) : List Char :=
  let piece := Text.trimChars piece
  let piece := if piece.head? = some '(' then piece.tail else piece
  let piece := if piece.getLast? = some ')' then piece.dropLast else piece
  Text.trimChars piece

def backends (text : List Char) : Except SelectorFault (List String) := do
  let text := Text.trimChars text
  let text := unwrap text.length text
  if text.isEmpty then .error .emptyBackends
  else
    let names := ((splitBars 0 text).map backendName).filter (!·.isEmpty)
    match names.find? (!isName ·) with
    | some name => .error (.invalidBackend (String.ofList name))
    | none => if names.isEmpty then .error .noBackends else .ok (names.map String.ofList)

/-- The keys that a selector text stands for, in the order in which they are
tried. -/
def parse (selector : String) : Except SelectorFault (List Key) :=
  let text := Text.trimChars selector.toList
  if text.isEmpty then .error .emptySelector
  else match cutAtColon text with
    | none =>
      if isName text then .ok [⟨"", String.ofList text⟩]
      else .error (.invalidName (String.ofList text))
    | some (before, behind) =>
      let name := Text.trimChars behind
      if !isName name then .error (.invalidName (String.ofList name))
      else do
        let names ← backends before
        .ok (names.map fun backend => ⟨backend, String.ofList name⟩)

end Selector

end ScriptKernel
