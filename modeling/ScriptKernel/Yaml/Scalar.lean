import ScriptKernel.Calendar.Date
import ScriptKernel.Number.Decimal
import ScriptKernel.Number.Integer
import ScriptKernel.Yaml.Fault

/-!
What a plain scalar means. A word that looks like nothing in particular is a
text; some words stand for truth values or for nothing, and what starts like a
number may be one, or a date.
-/

namespace ScriptKernel.Yaml

open Integer (digitValue signed)

inductive Meaning where
  | null
  | bool (value : Bool)
  | int (value : Int)
  | float (value : Float)
  | timestamp
  | text
deriving Repr

def Meaning.tag : Meaning → String
  | .null => "!!null"
  | .bool _ => "!!bool"
  | .int _ => "!!int"
  | .float _ => "!!float"
  | .timestamp => "!!timestamp"
  | .text => "!!str"

def words : List (Meaning × List String) := [
  (.bool true, ["y", "Y", "yes", "Yes", "YES", "true", "True", "TRUE", "on", "On", "ON"]),
  (.bool false, ["n", "N", "no", "No", "NO", "false", "False", "FALSE", "off", "Off", "OFF"]),
  (.null, ["", "~", "null", "Null", "NULL"]),
  (.float Binary64.undefined, [".nan", ".NaN", ".NAN"]),
  (.float (Binary64.infinity false), [".inf", ".Inf", ".INF", "+.inf", "+.Inf", "+.INF"]),
  (.float (Binary64.infinity true), ["-.inf", "-.Inf", "-.INF"])]

def word? (text : String) : Option Meaning :=
  (words.find? fun entry => entry.2.contains text).map (·.1)

def isFloat (text : List Char) : Bool :=
  match Decimal.significand? Char.isDigit (signed text).2 with
  | some (_, _, rest) => (Decimal.exponentPart? 'e' rest).isSome
  | none => false

/-- Numbers in base sixty, with colons between the digits. They are not read as
numbers here, but other readers may. -/
def isBase60 (text : List Char) : Bool :=
  let (_, body) := signed text
  match Text.splitAt ':' body with
  | first :: rest@(_ :: _) =>
    let last := rest.getLastD []
    let places := rest.dropLast ++ [last.takeWhile (· ≠ '.')]
    (match first with
      | c :: cs => c.isDigit && cs.all fun c => c.isDigit || c = '_'
      | [] => false) &&
    places.all (fun place => match place with
      | [c] => c.isDigit
      | [c, d] => '0' ≤ c && c ≤ '5' && d.isDigit
      | _ => false) &&
    ((last.dropWhile (· ≠ '.')).drop 1).all fun c => c.isDigit || c = '_'
  | _ => false

def short? : List Char → Option (Nat × List Char)
  | c :: d :: rest =>
    if !c.isDigit then none
    else if d.isDigit then some (digitValue c * 10 + digitValue d, rest)
    else some (digitValue c, d :: rest)
  | [c] => if c.isDigit then some (digitValue c, []) else none
  | [] => none

def after? (mark : Char) : List Char → Option (Nat × List Char)
  | c :: rest => if c = mark then short? rest else none
  | [] => none

def daysInMonth (year month : Nat) : Nat :=
  if month = 2 then if Date.isLeap year then 29 else 28
  else if month ∈ [4, 6, 9, 11] then 30 else 31

def isZone : List Char → Bool
  | ['Z'] => true
  | [sign, a, b, ':', c, d] =>
    (sign = '+' || sign = '-') && [a, b, c, d].all Char.isDigit &&
      digitValue a * 10 + digitValue b ≤ 24 && digitValue c * 10 + digitValue d ≤ 60
  | _ => false

/-- The time of a day behind its date. Between date and time stands a `T`, and
then a zone follows, or a space, and then none does. -/
def isTime : List Char → Bool
  | mark :: rest =>
    match (do
      let (hour, rest) ← short? rest
      let (minute, rest) ← after? ':' rest
      let (second, rest) ← after? ':' rest
      if hour < 24 ∧ minute < 60 ∧ second < 60 then some rest else none) with
    | none => false
    | some rest =>
      let rest := match rest with
        | point :: digit :: more =>
          if (point = '.' || point = ',') && digit.isDigit then more.dropWhile Char.isDigit else rest
        | _ => rest
      if mark = 'T' ∨ mark = 't' then isZone rest else mark = ' ' && rest.isEmpty
  | [] => true

def isTimestamp (text : List Char) : Bool :=
  let (year, rest) := Decimal.spanDigits text
  if year.length ≠ 4 then false
  else match (do
      let (month, rest) ← after? '-' rest
      let (day, rest) ← after? '-' rest
      some (month, day, rest)) with
    | none => false
    | some (month, day, rest) =>
      1 ≤ month && month ≤ 12 && 1 ≤ day && day ≤ daysInMonth (Decimal.digitsValue year) month &&
        isTime rest

/-- What starts like a number. The sign of a binary integer may also stand
behind the mark of its base. -/
def numeric (text : List Char) : Meaning :=
  let plain := text.filter (· ≠ '_')
  match Integer.wide? plain with
  | some n => .int n
  | none =>
    match if isFloat plain then Decimal.read? (String.ofList plain) else none, plain with
    | some x, _ => .float x
    | none, '0' :: 'b' :: digits => ((Integer.signedInBase? 2 digits).map Meaning.int).getD .text
    | none, _ => .text

def meaning (dated : Bool) (text : String) : Meaning :=
  match word? text with
  | some m => m
  | none =>
    match text.toList with
    | '.' :: _ =>
      match Decimal.read? text with
      | some x => .float x
      | none => .text
    | c :: rest =>
      if !(c.isDigit || c = '+' || c = '-') then .text
      else if dated && isTimestamp (c :: rest) then .timestamp
      else numeric (c :: rest)
    | [] => .null

def shortTag (tag : String) : String :=
  let stem := "tag:yaml.org,2002:"
  if Text.startsWith tag stem then "!!" ++ String.ofList (tag.toList.drop stem.length) else tag

/-- The meaning of a text under a tag. A tag that is not known makes a text of
it, and an integer may stand for a number. -/
def tagged (tag text : String) : Read Meaning :=
  let wanted := shortTag tag
  if wanted ∉ ["!!null", "!!bool", "!!int", "!!float", "!!timestamp"] then .ok .text
  else
    let found := meaning (wanted = "!!timestamp") text
    let misread := .error (.node (.undecodable found.tag text wanted))
    match found with
    | .int n =>
      if wanted = "!!int" then .ok found
      else if wanted = "!!float" ∧ n ≤ Int64.maxValue.toInt then .ok (.float (Binary64.ofInt n))
      else misread
    | _ => if found.tag = wanted then .ok found else misread

def scalarMeaning (tag : String) (plain : Bool) (text : String) : Read Meaning :=
  if tag ≠ "" then tagged tag text else .ok (if plain then meaning true text else .text)

end ScriptKernel.Yaml
