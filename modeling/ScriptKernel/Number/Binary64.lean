/-!
Binary floating point taken apart. A finite number is a whole magnitude times
a power of two, and rounding such a product to the nearest number, ties to the
even magnitude, puts it together again. Everything that rounds here is exact
arithmetic on naturals followed by one such rounding.
-/

namespace ScriptKernel.Binary64

def twoTo (n : Nat) : Nat := Nat.pow 2 n

/-- The number `magnitude * 2 ^ exponent` with a sign. Zero keeps its sign. -/
structure Parts where
  negative : Bool
  magnitude : Nat
  exponent : Int
deriving Repr, DecidableEq

def parts? (x : Float) : Option Parts :=
  let bits := x.toBits.toNat
  let field : Nat := bits / twoTo 52 % twoTo 11
  let fraction : Nat := bits % twoTo 52
  let negative := bits / twoTo 63 == 1
  if field = 2047 then none
  else if field = 0 then some ⟨negative, fraction, -1074⟩
  else some ⟨negative, twoTo 52 + fraction, (field : Int) - 1075⟩

def bitLength (n : Nat) : Nat :=
  if n = 0 then 0 else n.log2 + 1

/-- The quotient rounded to the nearest natural, a half to the even one. -/
def roundDiv (num den : Nat) : Nat :=
  let q := num / den
  let twice := 2 * (num % den)
  if den < twice ∨ (twice = den ∧ q % 2 = 1) then q + 1 else q

/-- The bits of `magnitude * 2 ^ exponent` where the magnitude has at most 53
binary digits, and fewer only at the least exponent. A magnitude of exactly
`2 ^ 53` carries into the exponent, and what is too large becomes infinite. -/
def packed (magnitude : Nat) (exponent : Int) : Nat :=
  if magnitude < twoTo 52 then magnitude
  else min ((exponent + 1075).toNat * twoTo 52 + (magnitude - twoTo 52)) (2047 * twoTo 52)

def signed (negative : Bool) (bits : Nat) : Float :=
  Float.ofBits (UInt64.ofNat (if negative then twoTo 63 + bits else bits))

/-- The exponent at which `num / den` has 53 binary digits before the point,
but not below the least one. -/
def exponentFor (num den : Nat) : Int :=
  let guess : Int := (bitLength num : Int) - bitLength den - 53
  let exact : Int :=
    if den * twoTo (guess + 53).toNat ≤ num * twoTo (-(guess + 53)).toNat then guess + 1 else guess
  max exact (-1074)

def ofRatio (negative : Bool) (num den : Nat) : Float :=
  let exponent := exponentFor num den
  let magnitude := roundDiv (num * twoTo (-exponent).toNat) (den * twoTo exponent.toNat)
  signed negative (packed magnitude exponent)

def ofScaled (negative : Bool) (magnitude : Nat) (exponent : Int) : Float :=
  if magnitude = 0 then signed negative 0
  else if 2000 < exponent then signed negative (2047 * twoTo 52)
  else if (bitLength magnitude : Int) + exponent < -1100 then signed negative 0
  else ofRatio negative (magnitude * twoTo exponent.toNat) (twoTo (-exponent).toNat)

def ofInt (n : Int) : Float :=
  ofScaled (n < 0) n.natAbs 0

def undefined : Float := 0.0 / 0.0

def infinity (negative : Bool) : Float :=
  signed negative (2047 * twoTo 52)

def isInfinite (x : Float) : Bool :=
  x.toBits.toNat % twoTo 63 == 2047 * twoTo 52

def isNegative (x : Float) : Bool :=
  x.toBits.toNat / twoTo 63 == 1

def Parts.whole (p : Parts) : Nat :=
  p.magnitude * twoTo p.exponent.toNat / twoTo (-p.exponent).toNat

def Parts.isWhole (p : Parts) : Bool :=
  p.magnitude * twoTo p.exponent.toNat % twoTo (-p.exponent).toNat == 0

def toInt? (x : Float) : Option Int := do
  let p ← parts? x
  if p.isWhole then some (if p.negative then -(p.whole : Int) else p.whole) else none

def floor (x : Float) : Float :=
  match parts? x with
  | none => x
  | some p =>
    if p.isWhole then x
    else ofScaled p.negative (if p.negative then p.whole + 1 else p.whole) 0

def ceil (x : Float) : Float :=
  match parts? x with
  | none => x
  | some p =>
    if p.isWhole then x
    else ofScaled p.negative (if p.negative then p.whole else p.whole + 1) 0

/-- The integer nearest to an integral number within 32 bits; beyond them the
bound. -/
def clamp32 (n : Int) : Int :=
  max (-2147483648) (min n 2147483647)

/-- The remainder of the exact quotient cut off toward zero. It has the sign
of the dividend. -/
def remainder (x y : Float) : Float :=
  match parts? x, parts? y with
  | some p, some q =>
    if q.magnitude = 0 then undefined
    else
      let least := min p.exponent q.exponent
      let dividend := p.magnitude * twoTo (p.exponent - least).toNat
      let divisor := q.magnitude * twoTo (q.exponent - least).toNat
      ofScaled p.negative (dividend % divisor) least
  | some _, none => if isInfinite y then x else undefined
  | none, _ => undefined

end ScriptKernel.Binary64
