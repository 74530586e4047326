import ScriptKernel.Text.Blank
import ScriptKernel.Text.Case
import ScriptKernel.Text.Utf8

/-!
Source encodings. A source is kept as UTF-8; bytes in another encoding are
brought there before anything reads them. Bytes without a meaning become the
replacement character, except in UTF-8 itself, where they stay for the lexer to
report.
-/

namespace ScriptKernel

inductive ByteOrder where
  | little
  | big
deriving Repr, DecidableEq

def ByteOrder.unit (order : ByteOrder) (first second : UInt8) : Nat :=
  match order with
  | .little => first.toNat + 256 * second.toNat
  | .big => 256 * first.toNat + second.toNat

inductive Encoding where
  | utf8
  | latin1
  | latin9
  | windows1252
  | utf16 (order : ByteOrder)
deriving Repr, DecidableEq

namespace Encoding

def named : List (String × Encoding) := [
  ("cp1252", .windows1252),
  ("iso-8859-1", .latin1),
  ("iso-8859-15", .latin9),
  ("latin1", .latin1),
  ("utf-16be", .utf16 .big),
  ("utf-16le", .utf16 .little),
  ("windows-1252", .windows1252)]

def names : List String := named.map (·.1)

def normalName (name : String) : String :=
  Text.lower (Text.trim name)

def find? (name : String) : Option Encoding :=
  let name := normalName name
  if name ∈ ["", "utf-8", "utf8"] then some .utf8 else named.lookup name

def replacement : Char := '\uFFFD'

def latin9Changes : List (Nat × Nat) := [
  (0xa4, 0x20ac), (0xa6, 0x160), (0xa8, 0x161), (0xb4, 0x17d), (0xb8, 0x17e), (0xbc, 0x152),
  (0xbd, 0x153), (0xbe, 0x178)]

def latin9Char (byte : UInt8) : Char :=
  if 0x80 ≤ byte ∧ byte < 0xa0 then replacement
  else Char.ofNat ((latin9Changes.lookup byte.toNat).getD byte.toNat)

/-- The characters of the bytes 0x80 to 0x9f in Windows-1252; the five holes are
the replacement character. -/
def windowsChars : List Nat := [
  0x20ac, 0xfffd, 0x201a, 0x192, 0x201e, 0x2026, 0x2020, 0x2021,
  0x2c6, 0x2030, 0x160, 0x2039, 0x152, 0xfffd, 0x17d, 0xfffd,
  0xfffd, 0x2018, 0x2019, 0x201c, 0x201d, 0x2022, 0x2013, 0x2014,
  0x2dc, 0x2122, 0x161, 0x203a, 0x153, 0xfffd, 0x17e, 0x178]

def windowsChar (byte : UInt8) : Char :=
  if 0x80 ≤ byte ∧ byte < 0xa0 then Char.ofNat (windowsChars.getD (byte.toNat - 0x80) 0xfffd)
  else Char.ofNat byte.toNat

def units (order : ByteOrder) : List UInt8 → List (Option Nat)
  | a :: b :: rest => some (order.unit a b) :: units order rest
  | [_] => [none]
  | [] => []

def isHigh (unit : Nat) : Bool := 0xd800 ≤ unit && unit < 0xdc00

def isLow (unit : Nat) : Bool := 0xdc00 ≤ unit && unit < 0xe000

/-- A surrogate takes a low surrogate after it along; only a high one makes a
character with it. -/
def pairUnits : List (Option Nat) → List Char
  | some unit :: some next :: rest =>
    if (isHigh unit || isLow unit) && isLow next then
      (if isHigh unit then Char.ofNat (0x10000 + (unit - 0xd800) * 0x400 + (next - 0xdc00))
        else replacement) :: pairUnits rest
    else if isHigh unit || isLow unit then replacement :: pairUnits (some next :: rest)
    else Char.ofNat unit :: pairUnits (some next :: rest)
  | some unit :: rest =>
    (if isHigh unit || isLow unit then replacement else Char.ofNat unit) :: pairUnits rest
  | none :: rest => replacement :: pairUnits rest
  | [] => []

/-- A mark at the start settles the order, whatever the name says. -/
def markedOrder (order : ByteOrder) : List UInt8 → ByteOrder × List UInt8
  | 0xfe :: 0xff :: rest => (.big, rest)
  | 0xff :: 0xfe :: rest => (.little, rest)
  | bytes => (order, bytes)

def utf16Chars (order : ByteOrder) (bytes : List UInt8) : List Char :=
  let (order, bytes) := markedOrder order bytes
  pairUnits (units order bytes)

def decode (encoding : Encoding) (bytes : List UInt8) : List UInt8 :=
  let encode := fun (chars : List Char) => Text.Utf8.encode (String.ofList chars)
  match encoding with
  | .utf8 => bytes
  | .latin1 => encode (bytes.map fun byte => Char.ofNat byte.toNat)
  | .latin9 => encode (bytes.map latin9Char)
  | .windows1252 => encode (bytes.map windowsChar)
  | .utf16 order => encode (utf16Chars order bytes)

end Encoding

end ScriptKernel
