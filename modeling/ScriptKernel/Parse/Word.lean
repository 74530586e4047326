import ScriptKernel.Parse.Cursor
import ScriptKernel.Text.Letter

/-!
Words, numbers and strings put together from lexemes. The lexer cuts source
text into single characters and operators; a word is a run of neighbouring
lexemes that consist of word characters.
-/

namespace ScriptKernel

def isWordText (text : String) : Bool :=
  !text.isEmpty && text.toList.all Text.isWordChar

def Lexeme.isWord (lexeme : Lexeme) : Bool :=
  !lexeme.synthetic && isWordText lexeme.text

def isDigitText (text : String) : Bool :=
  !text.isEmpty && text.toList.all Char.isDigit

def Lexeme.isDigits (lexeme : Lexeme) : Bool :=
  !lexeme.synthetic && isDigitText lexeme.text

def Lexeme.isSpace (newlines : Bool) (lexeme : Lexeme) : Bool :=
  !lexeme.synthetic &&
    ([" ", "\t", "\r", "\x0c"].contains lexeme.text || (newlines && lexeme.text == "\n"))

def Rest.text (lexemes : List Lexeme) : String :=
  String.join (lexemes.map (·.text))

namespace Rest

def word (rest : Rest) : String :=
  Rest.text (rest.takeWhile (·.isWord))

def afterWord (rest : Rest) : Rest :=
  rest.dropWhile (·.isWord)

def isKeyword (keyword : String) (rest : Rest) : Bool :=
  rest.word == keyword

def isAnyKeyword (keywords : List String) (rest : Rest) : Bool :=
  keywords.contains rest.word

def isNameStart : Rest → Bool
  | [] => false
  | lexeme :: _ =>
    lexeme.isWord && (lexeme.text.toList.head?.any Text.isNameStart)

def isDigitStart : Rest → Bool
  | [] => false
  | lexeme :: _ => !lexeme.synthetic && lexeme.text.toList.head?.any Char.isDigit

def skipBlanks (newlines : Bool) (rest : Rest) : Rest :=
  rest.dropWhile (·.isSpace newlines)

def skipComment? (start : String) (rest : Rest) : Option Rest :=
  if rest.isAt start then
    some (rest.dropWhile fun lexeme => !lexeme.synthetic && lexeme.text != "\n")
  else none

end Rest

namespace Parser

def word : Parser String := fun _ rest => .ok rest.word rest.afterWord

def expectKeyword (keyword : String) : Parser Unit := fun ctx rest =>
  if rest.isKeyword keyword then .ok () rest.afterWord
  else match expect [keyword] ctx rest with
    | .ok _ rest => .ok () rest
    | .error e rest => .error e rest

def name (reserved : List String) : Parser String := fun ctx rest =>
  if !rest.isNameStart then fail (.expected ["identifier"] (ctx.got rest)) ctx rest
  else if reserved.contains rest.word then fail (.reservedName rest.word) ctx rest
  else word ctx rest

/-- The digits at the cursor and, where fractions are read, a point with the
digits behind it. A point without digits is left alone. -/
def spanNumber (fraction : Bool) (rest : Rest) : List Lexeme × Rest :=
  let whole := rest.takeWhile (·.isDigits)
  let after := rest.dropWhile (·.isDigits)
  match after with
  | point :: digit :: more =>
    if fraction && Rest.isAt "." after && digit.isDigits then
      let behind := digit :: more
      (whole ++ point :: behind.takeWhile (·.isDigits), behind.dropWhile (·.isDigits))
    else (whole, after)
  | _ => (whole, after)

def number (fraction : Bool) : Parser String := fun _ rest =>
  let (digits, after) := spanNumber fraction rest
  .ok (Rest.text digits) after

def unescape? (text : String) : Option String :=
  if text = "n" then some "\n"
  else if text = "t" then some "\t"
  else if text = "r" then some "\r"
  else if text = "0" then some "\x00"
  else if text = "\\" then some "\\"
  else if text = "\"" then some "\""
  else if text = "'" then some "'"
  else none

def stringBody (ctx : Context) (quote : String) (read : String) :
    Rest → EStateM.Result ParseError Rest String
  | [] => .error (ctx.error [] .unterminatedString) []
  | lexeme :: rest =>
    if lexeme.synthetic then
      .error (ctx.error (lexeme :: rest) .unterminatedString) (lexeme :: rest)
    else if lexeme.text = quote then .ok read rest
    else if lexeme.text = "\\" then
      match rest with
      | [] => .error (ctx.error [] .unterminatedString) []
      | escaped :: rest =>
        if escaped.synthetic then .error (ctx.error rest .unterminatedString) rest
        else match unescape? escaped.text with
          | some text => stringBody ctx quote (read ++ text) rest
          | none =>
            .error ⟨.unknownEscape escaped.text, escaped.place.location ctx.file⟩ rest
    else stringBody ctx quote (read ++ lexeme.text) rest

def string (quote : String) : Parser String := do
  let _ ← expect [quote]
  fun ctx rest => stringBody ctx quote "" rest

end Parser

end ScriptKernel
