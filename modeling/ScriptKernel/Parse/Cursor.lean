import ScriptKernel.Source.Table
import ScriptKernel.Diagnostic

/-!
The point that a parser has reached: the lexemes not yet consumed. What
surrounds them for the whole parse (the file name, the structural texts, what
counts as blank, the depth bound) is the context.
-/

namespace ScriptKernel

/-- The lexemes from the cursor on. -/
abbrev Rest := List Lexeme

structure Context where
  /-- What is seen beyond the last lexeme. -/
  past : Lexeme
  file : String := ""
  aliases : Aliases := {}
  /-- Skips what may stand inside an expression. -/
  skipSpace : Rest → Rest := id
  /-- Skips what may stand between statements. -/
  skipTrivia : Rest → Rest := id
  /-- The bound on nested expressions and statements; none when not positive. -/
  maxDepth : Int := 512

/-- An empty marker at the end of the stream, with the line and column of the
last lexeme. -/
def Lexeme.past (tokens : List Lexeme) : Lexeme :=
  match tokens.getLast? with
  | none => ⟨"", Place.start, 0, true⟩
  | some last => ⟨"", ⟨last.stop, last.place.line, last.place.column⟩, last.stop, true⟩

def Rest.isAt (text : String) : Rest → Bool
  | lexeme :: _ => !lexeme.synthetic && lexeme.text == text
  | [] => false

def Rest.isAtAny (texts : List String) (rest : Rest) : Bool :=
  texts.any fun text => Rest.isAt text rest

namespace Context

def peek (ctx : Context) : Rest → Lexeme
  | lexeme :: _ => lexeme
  | [] => ctx.past

def atEnd (ctx : Context) : Rest → Bool
  | lexeme :: _ => lexeme.synthetic && lexeme.text == ctx.aliases.endOfInput
  | [] => true

def isStructural (ctx : Context) (kind : Structural) (rest : Rest) : Bool :=
  let lexeme := ctx.peek rest
  lexeme.text == ctx.aliases.text kind && lexeme.synthetic == kind.isMarker

def location (ctx : Context) (rest : Rest) : Location :=
  (ctx.peek rest).place.location ctx.file

def sight (ctx : Context) (rest : Rest) : Sight :=
  if ctx.atEnd rest then .endOfInput
  else
    let lexeme := ctx.peek rest
    if lexeme.synthetic then .marker lexeme.text else .source lexeme.text

def got (ctx : Context) (rest : Rest) : String :=
  if ctx.atEnd rest then "" else (ctx.peek rest).text

def error (ctx : Context) (rest : Rest) (fault : ParseFault) : ParseError :=
  ⟨fault, ctx.location rest⟩

end Context

def Rest.consumed (tokens : List Lexeme) (rest : Rest) : Nat :=
  tokens.length - rest.length

def Rest.seek (tokens : List Lexeme) (count : Int) : Rest :=
  tokens.drop count.toNat

def Context.peekAt (ctx : Context) (tokens : List Lexeme) (rest : Rest) (k : Int) : Lexeme :=
  let index := (Rest.consumed tokens rest : Int) + k
  if index < 0 then ctx.past else tokens[index.toNat]?.getD ctx.past

/-- A parser reads on from the cursor. A failed one keeps the point that it
reached. -/
abbrev Parser (α : Type) := ReaderT Context (EStateM ParseError Rest) α

namespace Parser

def fail {α : Type} (fault : ParseFault) : Parser α := fun ctx rest =>
  .error (ctx.error rest fault) rest

def failAt {α : Type} (location : Location) (fault : ParseFault) : Parser α := fun _ rest =>
  .error ⟨fault, location⟩ rest

def location : Parser Location := fun ctx rest => .ok (ctx.location rest) rest

def look {α : Type} (f : Context → Rest → α) : Parser α := fun ctx rest => .ok (f ctx rest) rest

def isAt (text : String) : Parser Bool := look fun _ => Rest.isAt text

def skipSpace : Parser Unit := fun ctx rest => .ok () (ctx.skipSpace rest)

def skipTrivia : Parser Unit := fun ctx rest => .ok () (ctx.skipTrivia rest)

/-- Consumes the lexeme at the cursor. Beyond the end there is none. -/
def advance : Parser Lexeme := fun ctx rest => .ok (ctx.peek rest) rest.tail

def expect (texts : List String) : Parser Lexeme := fun ctx rest =>
  if Rest.isAtAny texts rest then advance ctx rest
  else fail (.expected texts (ctx.got rest)) ctx rest

def expectStructural (kind : Structural) : Parser Lexeme := fun ctx rest =>
  if ctx.isStructural kind rest then advance ctx rest
  else fail (.expected [ctx.aliases.text kind] (ctx.got rest)) ctx rest

/-- Reads items divided by `separator` up to and with `close`; a separator may
stand before the end. Each item is read in view of those before it. A failure
is handed back with the items read so far. -/
def items {α : Type} (separator close : String) (item : List α → Parser α) :
    Nat → List α → Parser (List α × Option ParseError)
  | 0, done => fun ctx rest => .ok (done, some (ctx.error rest .nestedTooDeeply)) rest
  | fuel + 1, done => fun ctx rest =>
    let rest := ctx.skipSpace rest
    if Rest.isAt close rest then .ok (done, none) rest.tail
    else match item done ctx rest with
      | .error e rest => .ok (done, some e) rest
      | .ok x rest =>
        let done := done ++ [x]
        let rest := ctx.skipSpace rest
        if Rest.isAt separator rest then items separator close item fuel done ctx rest.tail
        else if Rest.isAt close rest then .ok (done, none) rest.tail
        else .ok (done, some (ctx.error rest (.expected [separator, close] (ctx.got rest)))) rest

def listed {α : Type} (separator close : String) (item : List α → Parser α) :
    Parser (List α × Option ParseError) := fun ctx rest =>
  items separator close item (rest.length + 1) [] ctx rest

def list {α : Type} (separator close : String) (item : List α → Parser α) :
    Parser (List α) := fun ctx rest =>
  match listed separator close item ctx rest with
  | .ok (done, none) rest => .ok done rest
  | .ok (_, some e) rest => .error e rest
  | .error e rest => .error e rest

end Parser

end ScriptKernel
