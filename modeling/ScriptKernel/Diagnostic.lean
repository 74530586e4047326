import ScriptKernel.Source.Location
import ScriptKernel.Text.Quoted

/-!
What can go wrong, phase by phase, and the words in which it is reported. Each
fault is a cause with the data that its message mentions; the wording is in one
function per phase.
-/

namespace ScriptKernel

open Text (decimal join)

inductive LexFault where
  | invalidByte (byte : UInt8)
  | tabInIndentation
  /-- A line is indented by `extra` more spaces than its block. -/
  | notAMultiple (extra width : Int)
  | unmatchedDedent (spaces : Int)
  /-- A fault reported in a host's own words. -/
  | reported (text : String)
deriving Repr, DecidableEq

def LexFault.message : LexFault → String
  | .invalidByte byte => "invalid UTF-8 byte 0x" ++ String.ofList (Text.hexDigits 2 byte.toNat)
  | .tabInIndentation => "tabs are not allowed in indentation"
  | .notAMultiple extra width =>
    "Indentation mismatch: " ++ decimal extra ++ " spaces is not a multiple of " ++ decimal width
  | .unmatchedDedent spaces =>
    "Indentation mismatch: dedent to " ++ decimal spaces ++ " spaces matches no enclosing block"
  | .reported text => text

structure LexError where
  fault : LexFault
  offset : Int
  location : Location
deriving Repr, DecidableEq

def LexError.render (e : LexError) : String :=
  e.location.render ++ ": lex error: " ++ e.fault.message ++ " (byte " ++ decimal e.offset ++ ")"

def LexError.inFile (file : String) (e : LexError) : LexError :=
  { e with location := { e.location with file := file } }

def LexError.atPlace (p : Place) (fault : LexFault) : LexError :=
  ⟨fault, p.offset, p.location ""⟩

/-- What stands at the point where parsing stopped. -/
inductive Sight where
  | endOfInput
  | marker (text : String)
  | source (text : String)
deriving Repr, DecidableEq

def Sight.describe : Sight → String
  | .endOfInput => "at end of input"
  | .marker text => "at " ++ text
  | .source text => "at '" ++ text ++ "'"

inductive SelectorFault where
  | emptySelector
  | invalidName (name : String)
  | emptyBackends
  | invalidBackend (name : String)
  | noBackends
deriving Repr, DecidableEq

def SelectorFault.message : SelectorFault → String
  | .emptySelector => "Empty selector"
  | .invalidName name => "Invalid capability name: '" ++ name ++ "'"
  | .emptyBackends => "Empty backend list"
  | .invalidBackend name => "Invalid backend name: '" ++ name ++ "'"
  | .noBackends => "No backends in backend list"

inductive ParseFault where
  /-- One of the texts should stand here; an empty `got` is the end of the input. -/
  | expected (texts : List String) (got : String)
  | duplicateName (name : String)
  | reservedName (word : String)
  | unknownStatement (sight : Sight)
  | unknownExpression (sight : Sight)
  | nothingConsumed (sight : Sight)
  | unfinishedBlock
  | nestedTooDeeply
  | unterminatedString
  | unknownEscape (text : String)
  | invalidNumber (text : String)
  | integerTooLarge (text : String)
  | chainedComparison
  | assignmentTarget
  | expectedBlock (sight : Sight)
  | expectedEnd (sight : Sight)
  | memoizationValue (sight : Sight)
  | argumentCount (name : String) (want got : Nat)
  | selectorNotLiteral
  | selector (fault : SelectorFault)
  | formatNotLiteral
  /-- A rule of the grammar gave up. -/
  | internal (text : String)
  /-- A fault reported in a host's own words. -/
  | reported (text : String)
deriving Repr, DecidableEq

def plural (n : Int) : String :=
  if n = 1 then "" else "s"

def ParseFault.message : ParseFault → String
  | .expected texts got =>
    "Expected " ++ join " or " (texts.map fun text => "'" ++ text ++ "'") ++ ", got " ++
      (if got = "" then "end of input" else "'" ++ got ++ "'")
  | .duplicateName name => "name '" ++ name ++ "' specified more than once"
  | .reservedName word => "Expected identifier, got keyword '" ++ word ++ "'"
  | .unknownStatement sight => "Unknown statement " ++ sight.describe
  | .unknownExpression sight => "Unknown expression " ++ sight.describe
  | .nothingConsumed sight => "statement handler consumed no input " ++ sight.describe
  | .unfinishedBlock => "Unexpected end of input inside a block"
  | .nestedTooDeeply => "Expression nested too deeply"
  | .unterminatedString => "Unterminated string literal"
  | .unknownEscape text => "Unknown escape '\\" ++ text ++ "'"
  | .invalidNumber text => "Invalid number '" ++ text ++ "'"
  | .integerTooLarge text => "Integer literal " ++ text ++ " does not fit in i64"
  | .chainedComparison => "Comparison operators cannot be chained"
  | .assignmentTarget => "Invalid assignment target"
  | .expectedBlock sight => "Expected an indented block " ++ sight.describe
  | .expectedEnd sight => "Expected end of statement " ++ sight.describe
  | .memoizationValue sight => "MEMOIZATION expects true or false " ++ sight.describe
  | .argumentCount name want got =>
    name ++ " expects " ++ decimal want ++ " argument" ++ plural want ++ ", got " ++ decimal got
  | .selectorNotLiteral => "extern selector must be a string literal"
  | .selector fault => fault.message
  | .formatNotLiteral => "format argument must be a string literal"
  | .internal text => "internal error: " ++ text
  | .reported text => text

structure ParseError where
  fault : ParseFault
  location : Location
deriving Repr, DecidableEq

def ParseError.render (e : ParseError) : String :=
  e.location.render ++ ": parse error: " ++ e.fault.message

/-- How a statement ends: it finishes, or it leaves or restarts a loop, or it
leaves a function. -/
inductive Flow where
  | normal
  | breaking
  | continuing
  | returning
deriving Repr, DecidableEq

def Flow.name : Flow → String
  | .normal => "None"
  | .breaking => "Break"
  | .continuing => "Continue"
  | .returning => "Return"

inductive RuntimeFault where
  | undefined (name : String)
  | arity (name : String) (want got : Int)
  | cannotCall (kind : String)
  | callDepth (limit : Int) (name : String)
  | stray (flow : Flow)
  | strayIn (flow : Flow) (function : String)
  | unknownCapability (selector : String)
  | capabilityFailed (key : String)
  | writeFailed (capability reason : String)
  | selector (fault : SelectorFault)
  | incomparable (left right : String)
  | wrongKind (want got : String)
  | divisionByZero
  | moduloByZero
  | overflow (left : Int) (op : String) (right : Int)
  | negationOverflow (x : Int)
  | invalidArithmetic (op : String)
  | invalidComparison (op : String)
  | cannotOrder (kind : String)
  | cannotIndex (kind : String)
  | cannotIterate (kind : String)
  | noLength (kind : String)
  | indexNotInteger (shown : String)
  | indexOutOfRange (shown : String) (length : Int)
  | tooManyPlaceholders (given : Nat)
  | unusedArguments (used given : Nat)
deriving Repr, DecidableEq

def RuntimeFault.message : RuntimeFault → String
  | .undefined name => "Undefined variable '" ++ name ++ "'"
  | .arity name want got =>
    name ++ " expects " ++ decimal want ++ " argument" ++ plural want ++ ", got " ++ decimal got
  | .cannotCall kind => "Cannot call a value of type " ++ kind
  | .callDepth limit name =>
    "Maximum call depth " ++ decimal limit ++ " exceeded in '" ++ name ++ "'"
  | .stray flow => "'" ++ flow.name ++ "' outside of a loop"
  | .strayIn flow function =>
    "'" ++ flow.name ++ "' outside of a loop in function '" ++ function ++ "'"
  | .unknownCapability text => "Unknown capability '" ++ text ++ "'"
  | .capabilityFailed key => "capability " ++ key ++ " failed"
  | .writeFailed capability reason => capability ++ ": " ++ reason
  | .selector fault => fault.message
  | .incomparable left right => "Cannot compare " ++ left ++ " with " ++ right
  | .wrongKind want got => "Expected " ++ want ++ ", got " ++ got
  | .divisionByZero => "Division by zero"
  | .moduloByZero => "Modulo by zero"
  | .overflow left op right =>
    "Integer overflow in " ++ decimal left ++ " " ++ op ++ " " ++ decimal right
  | .negationOverflow x => "Integer overflow in -" ++ decimal x
  | .invalidArithmetic op => "Invalid arithmetic operator '" ++ op ++ "'"
  | .invalidComparison op => "Invalid comparison operator '" ++ op ++ "'"
  | .cannotOrder kind => "Cannot order values of type " ++ kind
  | .cannotIndex kind => "Cannot index a value of type " ++ kind
  | .cannotIterate kind => "Cannot iterate over a value of type " ++ kind
  | .noLength kind => "len() expects a string, array or range, got " ++ kind
  | .indexNotInteger shown => "Index must be an integer, got " ++ shown
  | .indexOutOfRange shown length =>
    "Index out of range: " ++ shown ++ " (length " ++ decimal length ++ ")"
  | .tooManyPlaceholders given =>
    "Format string has more \x7b\x7d than the " ++ decimal given ++ " argument(s) given"
  | .unusedArguments used given =>
    "Format string uses " ++ decimal used ++ " of " ++ decimal given ++ " arguments"

def RuntimeFault.render (f : RuntimeFault) : String :=
  "runtime error: " ++ f.message

/-- A source text is refused by the first phase that finds a fault in it. -/
inductive SourceError where
  | lex (error : LexError)
  | parse (error : ParseError)
deriving Repr, DecidableEq

def SourceError.render : SourceError → String
  | .lex error => error.render
  | .parse error => error.render

end ScriptKernel
