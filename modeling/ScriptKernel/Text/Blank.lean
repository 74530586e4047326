import ScriptKernel.Text.Ranges

/-!
White space (the property White_Space) and the removal of it at both ends of
a text.
-/

namespace ScriptKernel.Text

def blankRanges : List (Nat × Nat) := [
  (0x9, 0xd), (0x20, 0x20), (0x85, 0x85), (0xa0, 0xa0), (0x1680, 0x1680), (0x2000, 0x200a),
  (0x2028, 0x2029), (0x202f, 0x202f), (0x205f, 0x205f), (0x3000, 0x3000)]

def isBlank (c : Char) : Bool :=
  inRanges blankRanges c.toNat

def trimRight (p : Char → Bool) (text : List Char) : List Char :=
  (text.reverse.dropWhile p).reverse

def trimChars (text : List Char) : List Char :=
  trimRight isBlank (text.dropWhile isBlank)

def trim (text : String) : String :=
  String.ofList (trimChars text.toList)

end ScriptKernel.Text
