import ScriptKernel.Text.Pieces

/-!
What a document is refused for, and where: bytes that are no text, characters
that make no token, tokens in the wrong place, and nodes without a meaning.
-/

namespace ScriptKernel.Yaml

inductive ByteProblem where
  | controlCharacter
  | badLeadByte
  | badTailByte
  | cutCharacter
  | longCharacter
  | badCharacter
  | strayLowSurrogate
  | missingLowSurrogate
  | cutUnit
  | cutSurrogates
deriving Repr, DecidableEq

def ByteProblem.message : ByteProblem → String
  | .controlCharacter => "control characters are not allowed"
  | .badLeadByte => "invalid leading UTF-8 octet"
  | .badTailByte => "invalid trailing UTF-8 octet"
  | .cutCharacter => "incomplete UTF-8 octet sequence"
  | .longCharacter => "invalid length of a UTF-8 sequence"
  | .badCharacter => "invalid Unicode character"
  | .strayLowSurrogate => "unexpected low surrogate area"
  | .missingLowSurrogate => "expected low surrogate area"
  | .cutUnit => "incomplete UTF-16 character"
  | .cutSurrogates => "incomplete UTF-16 surrogate pair"

inductive TokenProblem where
  | badStart
  | missingColon
  | strayItem
  | strayKey
  | strayValue
  | strayMark
  | unclosedQuote
  | badEscape
  | badCode
  | badCodePoint
  | tabInPlain
  | tabInBlock
  | zeroIndent
  | unclosedHeader
  | badName
  | missingBang
  | missingUri
  | unclosedUri
  | missingOctet
  | badLeadOctet
  | badTailOctet
  | missingDirective
  | unknownDirective
  | badDirective
  | missingPoint
  | longVersion
  | missingVersion
  | missingSpace
  | missingSpaceOrBreak
deriving Repr, DecidableEq

def TokenProblem.message : TokenProblem → String
  | .badStart => "found character that cannot start any token"
  | .missingColon => "could not find expected ':'"
  | .strayItem => "block sequence entries are not allowed in this context"
  | .strayKey => "mapping keys are not allowed in this context"
  | .strayValue => "mapping values are not allowed in this context"
  | .strayMark => "found unexpected document indicator"
  | .unclosedQuote => "found unexpected end of stream"
  | .badEscape => "found unknown escape character"
  | .badCode => "did not find expected hexdecimal number"
  | .badCodePoint => "found invalid Unicode character escape code"
  | .tabInPlain => "found a tab character that violates indentation"
  | .tabInBlock => "found a tab character where an indentation space is expected"
  | .zeroIndent => "found an indentation indicator equal to 0"
  | .unclosedHeader => "did not find expected comment or line break"
  | .badName => "did not find expected alphabetic or numeric character"
  | .missingBang => "did not find expected '!'"
  | .missingUri => "did not find expected tag URI"
  | .unclosedUri => "did not find the expected '>'"
  | .missingOctet => "did not find URI escaped octet"
  | .badLeadOctet => "found an incorrect leading UTF-8 octet"
  | .badTailOctet => "found an incorrect trailing UTF-8 octet"
  | .missingDirective => "could not find expected directive name"
  | .unknownDirective => "found unknown directive name"
  | .badDirective => "found unexpected non-alphabetical character"
  | .missingPoint => "did not find expected digit or '.' character"
  | .longVersion => "found extremely long version number"
  | .missingVersion => "did not find expected version number"
  | .missingSpace => "did not find expected whitespace"
  | .missingSpaceOrBreak => "did not find expected whitespace or line break"

inductive OrderProblem where
  | missingDocument
  | missingContent
  | missingDash
  | missingKey
  | unclosedList
  | unclosedMapping
  | unknownHandle
  | repeatedVersion
  | wrongVersion
  | repeatedHandle
deriving Repr, DecidableEq

def OrderProblem.message : OrderProblem → String
  | .missingDocument => "did not find expected <document start>"
  | .missingContent => "did not find expected node content"
  | .missingDash => "did not find expected '-' indicator"
  | .missingKey => "did not find expected key"
  | .unclosedList => "did not find expected ',' or ']'"
  | .unclosedMapping => "did not find expected ',' or '\x7d'"
  | .unknownHandle => "found undefined tag handle"
  | .repeatedVersion => "found duplicate %YAML directive"
  | .wrongVersion => "found incompatible YAML document"
  | .repeatedHandle => "found duplicate %TAG directive"

inductive NodeProblem where
  | unknownAnchor (name : String)
  | unmergeable
  /-- A text that means one thing under the tag of another. -/
  | undecodable (meaning text tag : String)
deriving Repr, DecidableEq

def NodeProblem.message : NodeProblem → String
  | .unknownAnchor name => "unknown anchor '" ++ name ++ "' referenced"
  | .unmergeable => "map merge requires map or sequence of maps as the value"
  | .undecodable meaning text tag =>
    "cannot decode " ++ meaning ++ " \x60" ++ text ++ "\x60 as a " ++ tag

inductive Fault where
  | bytes (problem : ByteProblem)
  | token (line : Nat) (problem : TokenProblem)
  | order (line : Nat) (problem : OrderProblem)
  | node (problem : NodeProblem)
deriving Repr, DecidableEq

def onLine (line shown : Nat) (message : String) : String :=
  if line ≤ 1 then message else "line " ++ Text.decimal shown ++ ": " ++ message

/-- Tokens in the wrong place are reported for the line before. -/
def Fault.message : Fault → String
  | .bytes problem => problem.message
  | .token line problem => onLine line line problem.message
  | .order line problem => onLine line (line - 1) problem.message
  | .node problem => problem.message

abbrev Read (α : Type) := Except Fault α

end ScriptKernel.Yaml
