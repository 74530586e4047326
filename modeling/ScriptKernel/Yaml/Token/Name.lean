import ScriptKernel.Number.Integer
import ScriptKernel.Yaml.Token.Basic

/-!
Anchors, aliases, tags, and the directives before a document.
-/

namespace ScriptKernel.Yaml

def spanName (cells : Cells) : String × Cells :=
  (String.ofList ((cells.takeWhile fun cell => isNameChar cell.char).map (·.char)),
    cells.dropWhile fun cell => isNameChar cell.char)

def anchorName (cells : Cells) : Read (String × Cells) :=
  let (name, rest) := spanName cells
  let c := Cells.char rest
  if name ≠ "" && (isGap c || c ∈ ['?', ':', ',', ']', '\x7d', '%', '@', '\x60']) then .ok (name, rest)
  else .error (.token (Cells.line rest) .badName)

def octet (cells : Cells) : Read (UInt8 × Cells) :=
  match cells.take 3 with
  | [percent, high, low] =>
    if percent.char = '%' && Integer.isHexDigit high.char && Integer.isHexDigit low.char then
      .ok (UInt8.ofNat (Integer.digitValue high.char * 16 + Integer.digitValue low.char), cells.drop 3)
    else .error (.token (Cells.line cells) .missingOctet)
  | _ => .error (.token (Cells.line cells) .missingOctet)

def tailOctets : Nat → Cells → Read (List UInt8 × Cells)
  | 0, cells => .ok ([], cells)
  | n + 1, cells => do
    let (byte, rest) ← octet cells
    if byte < 0x80 || 0xc0 ≤ byte then .error (.token (Cells.line cells) .badTailOctet)
    else
      let (bytes, rest) ← tailOctets n rest
      return (byte :: bytes, rest)

def octets (cells : Cells) : Read (List Char × Cells) := do
  let (lead, rest) ← octet cells
  let further? := if lead < 0x80 then some 0 else if lead < 0xc0 then none
    else if lead < 0xe0 then some 1 else if lead < 0xf0 then some 2
    else if lead < 0xf8 then some 3 else none
  match further? with
  | none => .error (.token (Cells.line cells) .badLeadOctet)
  | some further =>
    let (bytes, rest) ← tailOctets further rest
    return (Text.Utf8.lossy (lead :: bytes), rest)

def isUriChar (c : Char) : Bool :=
  isNameChar c || c ∈ [';', '/', '?', ':', '@', '&', '=', '+', '$', ',', '.', '!', '~', '*', '\x27', '(',
    ')', '[', ']', '%']

def uriChars : Nat → Cells → Read (List Char × Cells)
  | steps + 1, cells =>
    if !isUriChar (Cells.char cells) then .ok ([], cells)
    else do
      let (chars, rest) ← if Cells.char cells = '%' then octets cells
        else .ok ([Cells.char cells], cells.tail)
      let (more, rest) ← uriChars steps rest
      return (chars ++ more, rest)
  | 0, cells => .ok ([], cells)

def uri (started : Bool) (cells : Cells) : Read (String × Cells) := do
  let (chars, rest) ← uriChars cells.length cells
  if chars.isEmpty && !started then .error (.token (Cells.line rest) .missingUri)
  else return (String.ofList chars, rest)

def tagHandle (cells : Cells) : Read (String × Cells) :=
  if Cells.char cells ≠ '!' then .error (.token (Cells.line cells) .missingBang)
  else
    let (name, rest) := spanName cells.tail
    if Cells.char rest = '!' then .ok ("!" ++ name ++ "!", rest.tail) else .ok ("!" ++ name, rest)

def isClosedHandle (handle : String) : Bool :=
  1 < handle.length && handle.toList.getLast? = some '!'

def tagParts (cells : Cells) : Read (String × String × Cells) := do
  if Cells.char cells.tail = '<' then
    let (suffix, rest) ← uri false (cells.drop 2)
    if Cells.char rest = '>' then return ("", suffix, rest.tail)
    else .error (.token (Cells.line rest) .unclosedUri)
  else
    let (handle, rest) ← tagHandle cells
    if isClosedHandle handle then
      let (suffix, rest) ← uri false rest
      return (handle, suffix, rest)
    else
      let (more, rest) ← uri true rest
      let suffix := String.ofList (handle.toList.drop 1) ++ more
      return if suffix = "" then ("", "!", rest) else ("!", suffix, rest)

def tag (cells : Cells) : Read (TokenKind × Cells) := do
  let (handle, suffix, rest) ← tagParts cells
  if isGap (Cells.char rest) then return (.tag handle suffix, rest)
  else .error (.token (Cells.line rest) .missingSpaceOrBreak)

def versionPart (cells : Cells) : Read (Nat × Cells) :=
  let digits := (cells.takeWhile fun cell => cell.char.isDigit).map (·.char)
  let rest := cells.drop digits.length
  if 2 < digits.length then .error (.token (Cells.line cells) .longVersion)
  else if digits.isEmpty then .error (.token (Cells.line cells) .missingVersion)
  else .ok (digits.foldl (fun n c => n * 10 + Integer.digitValue c) 0, rest)

def versionDirective (cells : Cells) : Read (TokenKind × Cells) := do
  let (major, rest) ← versionPart (Cells.skipBlanks cells)
  if Cells.char rest ≠ '.' then .error (.token (Cells.line rest) .missingPoint)
  else
    let (minor, rest) ← versionPart rest.tail
    return (.version major minor, rest)

def handleDirective (cells : Cells) : Read (TokenKind × Cells) := do
  let (handle, rest) ← tagHandle (Cells.skipBlanks cells)
  if handle ≠ "!" && !isClosedHandle handle then .error (.token (Cells.line rest) .missingBang)
  else if !isBlank (Cells.char rest) then .error (.token (Cells.line rest) .missingSpace)
  else
    let (stem, rest) ← uri false (Cells.skipBlanks rest)
    if isGap (Cells.char rest) then return (.handle handle stem, rest)
    else .error (.token (Cells.line rest) .missingSpaceOrBreak)

def directive (cells : Cells) : Read (TokenKind × Cells) := do
  let (name, rest) := spanName cells
  if name = "" then .error (.token (Cells.line rest) .missingDirective)
  else if !isGap (Cells.char rest) then .error (.token (Cells.line rest) .badDirective)
  else
    let (kind, rest) ←
      if name = "YAML" then versionDirective rest
      else if name = "TAG" then handleDirective rest
      else .error (.token (Cells.line rest) .unknownDirective)
    return (kind, ← Cells.closeLine rest)

end ScriptKernel.Yaml
