/-!
Integers as texts in several bases. The base is told by the start of the text.
-/

namespace ScriptKernel.Integer

def digitValue (c : Char) : Nat :=
  if c.isDigit then c.toNat - '0'.toNat
  else if c.isLower then c.toNat - 'a'.toNat + 10
  else if c.isUpper then c.toNat - 'A'.toNat + 10
  else 36

def isHexDigit (c : Char) : Bool :=
  digitValue c < 16

def inBase? (base : Nat) (text : List Char) : Option Nat :=
  let digits := text.filter (· ≠ '_')
  if !digits.isEmpty && digits.all (digitValue · < base) then
    some (digits.foldl (fun n c => base * n + digitValue c) 0)
  else none

def magnitude? : List Char → Option Nat
  | '0' :: mark :: digits =>
    if mark.toLower = 'x' then inBase? 16 digits
    else if mark.toLower = 'b' then inBase? 2 digits
    else if mark.toLower = 'o' then inBase? 8 digits
    else inBase? 8 (mark :: digits)
  | digits => inBase? 10 digits

def signed (text : List Char) : Bool × List Char :=
  match text with
  | '-' :: rest => (true, rest)
  | '+' :: rest => (false, rest)
  | rest => (false, rest)

def within64? (negative : Bool) (n : Nat) : Option Int :=
  let value : Int := if negative then -n else n
  if Int64.minValue.toInt ≤ value ∧ value ≤ Int64.maxValue.toInt then some value else none

def signedInBase? (base : Nat) (text : List Char) : Option Int := do
  let (negative, digits) := signed text
  within64? negative (← inBase? base digits)

/-- Whether every underscore stands by itself behind one character and before
another. -/
def isGrouped (text : List Char) : Bool :=
  text.head? ≠ some '_' && text.getLast? ≠ some '_' &&
    (text.zip text.tail).all fun (c, next) => !(c = '_' && next = '_')

def int64? (text : List Char) : Option Int := do
  let (negative, digits) := signed text
  let n ← if isGrouped digits then magnitude? digits else none
  within64? negative n

def wide? (text : List Char) : Option Int :=
  match int64? text with
  | some n => some n
  | none => do
    let n ← magnitude? text
    if n < UInt64.size then some n else none

end ScriptKernel.Integer
