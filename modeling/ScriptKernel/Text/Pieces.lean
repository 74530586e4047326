/-!
Taking texts apart and putting them together.
-/

namespace ScriptKernel.Text

def join (separator : String) : List String → String
  | [] => ""
  | [text] => text
  | text :: texts => text ++ separator ++ join separator texts

/-- Splits at every occurrence of a character. The pieces, with the character
between them, make up the text. -/
def splitAt (separator : Char) : List Char → List (List Char)
  | [] => [[]]
  | c :: cs =>
    if c = separator then [] :: splitAt separator cs
    else match splitAt separator cs with
      | piece :: pieces => (c :: piece) :: pieces
      | [] => [[c]]

def lines (text : String) : List String :=
  (splitAt '\n' text.toList).map String.ofList

def occursIn (part : List Char) : List Char → Bool
  | [] => part.isEmpty
  | c :: cs => part.isPrefixOf (c :: cs) || occursIn part cs

def contains (text part : String) : Bool :=
  occursIn part.toList text.toList

def endsWith (text ending : String) : Bool :=
  ending.toList.isSuffixOf text.toList

def startsWith (text start : String) : Bool :=
  start.toList.isPrefixOf text.toList

def padded (fill : Char) (width n : Nat) : String :=
  let digits := Nat.toDigits 10 n
  String.ofList (List.replicate (width - digits.length) fill ++ digits)

def decimal (n : Int) : String :=
  match n with
  | .ofNat n => String.ofList (Nat.toDigits 10 n)
  | .negSucc n => String.ofList ('-' :: Nat.toDigits 10 (n + 1))

end ScriptKernel.Text
