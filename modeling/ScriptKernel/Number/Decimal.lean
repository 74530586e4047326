import ScriptKernel.Number.Binary64
import ScriptKernel.Number.Integer
import ScriptKernel.Text.Pieces

/-!
Texts of floating-point numbers. Writing takes the fewest decimal digits that
read back as the same number and never an exponent; reading takes digits in base
ten or sixteen and rounds their exact value to the nearest number.
-/

namespace ScriptKernel.Decimal
open ScriptKernel

def tenTo (n : Nat) : Nat := Nat.pow 10 n

/-- The decimal `digits * 10 ^ exponent`. -/
structure Scaled where
  digits : Nat
  exponent : Int
deriving Repr, DecidableEq

/-- The reals that round to a number lie between `low / unit` and
`high / unit`, and `middle / unit` is the number itself. The ends belong to
them exactly when the magnitude is even. -/
structure Interval where
  low : Nat
  middle : Nat
  high : Nat
  unit : Nat
  closed : Bool
deriving Repr, DecidableEq

/-- The gap below a power of two is half the gap above, the least numbers apart. -/
def Interval.of (p : Binary64.Parts) : Interval :=
  let narrow := p.magnitude = Binary64.twoTo 52 ∧ -1074 < p.exponent
  let factor := Binary64.twoTo (p.exponent - 2).toNat
  { low := (if narrow then 4 * p.magnitude - 1 else 4 * p.magnitude - 2) * factor
    middle := 4 * p.magnitude * factor
    high := (4 * p.magnitude + 2) * factor
    unit := Binary64.twoTo (2 - p.exponent).toNat
    closed := p.magnitude % 2 == 0 }

def Interval.holds (i : Interval) (d : Scaled) : Bool :=
  let value := d.digits * tenTo d.exponent.toNat * i.unit
  let scale := tenTo (-d.exponent).toNat
  if i.closed then i.low * scale ≤ value && value ≤ i.high * scale
  else i.low * scale < value && value < i.high * scale

/-- The least `k` from `start` on, within four steps, with the number below `10 ^ k`. -/
def Interval.scaleFrom (i : Interval) : Nat → Int → Int
  | 0, k => k
  | steps + 1, k =>
    if i.middle * tenTo (-k).toNat < i.unit * tenTo k.toNat then k else i.scaleFrom steps (k + 1)

/-- The number of digits before the decimal point; zero or less for a fraction
that starts with zeros. -/
def Interval.scale (i : Interval) : Int :=
  let bits : Int := (Binary64.bitLength i.middle : Int) - Binary64.bitLength i.unit
  i.scaleFrom 4 ((bits - 1) * 30103 / 100000)

/-- The decimal of at most `count` digits nearest to the number among those in
the interval; a tie goes to the even digit. -/
def Interval.withDigits? (i : Interval) (scale : Int) (count : Nat) : Option Scaled :=
  let exponent := scale - count
  let num := i.middle * tenTo (-exponent).toNat
  let den := i.unit * tenTo exponent.toNat
  let below : Scaled := ⟨num / den, exponent⟩
  let above : Scaled := ⟨num / den + 1, exponent⟩
  if i.holds below then
    if i.holds above && Binary64.roundDiv num den == above.digits then some above else some below
  else if i.holds above then some above else none

def Scaled.strip : Nat → Scaled → Scaled
  | 0, d => d
  | steps + 1, d =>
    if d.digits ≠ 0 ∧ d.digits % 10 = 0 then Scaled.strip steps ⟨d.digits / 10, d.exponent + 1⟩ else d

/-- The shortest decimal that reads back as the number, and of those the
nearest. Seventeen digits always do; the exact value stands in for the case
that never arises. -/
def shortest (p : Binary64.Parts) : Scaled :=
  if p.magnitude = 0 then ⟨0, 0⟩
  else
    let interval := Interval.of p
    let scale := interval.scale
    let found := (List.range 17).findSome? fun n => interval.withDigits? scale (n + 1)
    let exact : Scaled :=
      ⟨p.magnitude * Binary64.twoTo p.exponent.toNat * Nat.pow 5 (-p.exponent).toNat, min p.exponent 0⟩
    (found.getD exact).strip 40

def Scaled.positional (d : Scaled) : List Char :=
  let digits := Nat.toDigits 10 d.digits
  if 0 ≤ d.exponent then
    if d.digits = 0 then ['0'] else digits ++ List.replicate d.exponent.toNat '0'
  else
    let places := (-d.exponent).toNat
    let filled := List.replicate (places + 1 - digits.length) '0' ++ digits
    let before := filled.length - places
    filled.take before ++ '.' :: filled.drop before

def render (x : Float) : String :=
  match Binary64.parts? x with
  | some p =>
    let text := (shortest p).positional
    String.ofList (if p.negative && p.magnitude != 0 then '-' :: text else text)
  | none =>
    if Binary64.isInfinite x then if Binary64.isNegative x then "-Inf" else "+Inf" else "NaN"

def Scaled.toFloat (negative : Bool) (d : Scaled) : Float :=
  let length : Int := (Nat.toDigits 10 d.digits).length
  if d.digits = 0 ∨ length + d.exponent < -400 then Binary64.signed negative 0
  else if 400 < length + d.exponent then Binary64.infinity negative
  else Binary64.ofRatio negative (d.digits * tenTo d.exponent.toNat) (tenTo (-d.exponent).toNat)

def digitsValue (digits : List Char) : Nat :=
  digits.foldl (fun value c => value * 10 + (c.toNat - 48)) 0

def spanDigits (text : List Char) : List Char × List Char :=
  (text.takeWhile Char.isDigit, text.dropWhile Char.isDigit)

def exponentPart? (mark : Char) : List Char → Option Int
  | [] => some 0
  | c :: rest =>
    let (negative, digits) := Integer.signed rest
    if c.toLower ≠ mark || digits.isEmpty || !digits.all Char.isDigit then none
    else
      let value : Int := digitsValue digits
      some (if negative then -value else value)

/-- Takes off the digits around an optional point and tells how many stand
behind it. There is at least one digit. -/
def significand? (isDigit : Char → Bool) (text : List Char) :
    Option (List Char × Nat × List Char) :=
  let before := text.takeWhile isDigit
  let rest := text.dropWhile isDigit
  let (after, rest) :=
    match rest with
    | '.' :: rest => (rest.takeWhile isDigit, rest.dropWhile isDigit)
    | rest => ([], rest)
  if before.isEmpty && after.isEmpty then none
  else some (before ++ after, after.length, rest)

def isGrouped (isDigit : Char → Bool) : Bool → List Char → Bool
  | _, [] => true
  | behind, '_' :: rest => behind && rest.head?.any isDigit && isGrouped isDigit false rest
  | _, c :: rest => isGrouped isDigit (isDigit c) rest

def ungrouped? (isDigit : Char → Bool) (behind : Bool) (text : List Char) : Option (List Char) :=
  if isGrouped isDigit behind text then some (text.filter (· ≠ '_')) else none

def decimal? (negative : Bool) (text : List Char) : Option Float := do
  let (digits, places, rest) ← significand? Char.isDigit text
  let exponent ← exponentPart? 'e' rest
  some (Scaled.toFloat negative ⟨digitsValue digits, exponent - places⟩)

def hexadecimal? (negative : Bool) (text : List Char) : Option Float := do
  let (digits, places, rest) ← significand? Integer.isHexDigit text
  let magnitude ← Integer.inBase? 16 digits
  let exponent ← if rest.isEmpty then none else exponentPart? 'p' rest
  some (Binary64.ofScaled negative magnitude (exponent - 4 * places))

/-- Reads an unsigned number in either base. Underscores may group the digits,
and the mark of a base counts as a digit. -/
def magnitude? (negative : Bool) : List Char → Option Float
  | '0' :: 'x' :: digits | '0' :: 'X' :: digits => do
    hexadecimal? negative (← ungrouped? Integer.isHexDigit true digits)
  | digits => do decimal? negative (← ungrouped? Char.isDigit false digits)

/-- Reads a number with an optional sign, or one of the words for the numbers
without digits, of which the undefined one has no sign. A number too large for
any finite one is refused. -/
def read? (text : String) : Option Float :=
  let (negative, rest) := Integer.signed text.toList
  let word := String.ofList (rest.map Char.toLower)
  if word = "inf" ∨ word = "infinity" then some (Binary64.infinity negative)
  else if text.toLower = "nan" then some Binary64.undefined
  else do
    let x ← magnitude? negative rest
    if Binary64.isInfinite x then none else some x

end ScriptKernel.Decimal
