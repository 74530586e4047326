import ScriptKernel.Text.Printable

/-!
Quoted texts: double quotes around, a backslash escape for quote, backslash
and everything that is not printable.
-/

namespace ScriptKernel.Text

def hexDigits (width n : Nat) : List Char :=
  let digits := Nat.toDigits 16 n
  List.replicate (width - digits.length) '0' ++ digits

def letterEscape? (c : Char) : Option Char :=
  if c.toNat = 0x07 then some 'a'
  else if c.toNat = 0x08 then some 'b'
  else if c.toNat = 0x0c then some 'f'
  else if c = '\n' then some 'n'
  else if c = '\r' then some 'r'
  else if c = '\t' then some 't'
  else if c.toNat = 0x0b then some 'v'
  else none

def escapeChar (c : Char) : List Char :=
  if c = '"' ∨ c = '\\' then ['\\', c]
  else if isPrintable c then [c]
  else match letterEscape? c with
    | some letter => ['\\', letter]
    | none =>
      if c.toNat < 0x80 then '\\' :: 'x' :: hexDigits 2 c.toNat
      else if c.toNat < 0x10000 then '\\' :: 'u' :: hexDigits 4 c.toNat
      else '\\' :: 'U' :: hexDigits 8 c.toNat

def quoteChars (text : List Char) : List Char :=
  '"' :: text.flatMap escapeChar ++ ['"']

def quote (text : String) : String :=
  String.ofList (quoteChars text.toList)

end ScriptKernel.Text
