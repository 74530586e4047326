import ScriptKernel.Number.Binary64

/-!
Powers. A whole exponent is worked off bit by bit on a fraction between a half
and one, with the powers of two counted apart, so that intermediate results
neither overflow nor lose small digits.
-/

namespace ScriptKernel.Binary64

/-- A finite number as a fraction between a half and one, and the power of two
that goes with it. -/
def fraction (x : Float) : Float × Int :=
  match parts? x with
  | none => (x, 0)
  | some p =>
    if p.magnitude = 0 then (x, 0)
    else
      let bits : Int := bitLength p.magnitude
      (ofScaled p.negative p.magnitude (-bits), p.exponent + bits)

def scale (x : Float) (exponent : Int) : Float :=
  match parts? x with
  | none => x
  | some p => ofScaled p.negative p.magnitude (p.exponent + exponent)

/-- The product of `factor * 2 ^ shift` and the power with whole exponent `n`
of `base * 2 ^ order`. Beyond `2 ^ 4096` the result is zero or infinite
whatever the remaining factors are. -/
def squareUp : Nat → Nat → Float → Int → Float → Int → Float × Int
  | 0, _, factor, shift, _, _ => (factor, shift)
  | fuel + 1, n, factor, shift, base, order =>
    if n = 0 then (factor, shift)
    else if order < -4096 ∨ 4096 < order then (factor, shift + order)
    else
      let (factor, shift) := if n % 2 = 1 then (factor * base, shift + order) else (factor, shift)
      let square := base * base
      if square < 0.5 then squareUp fuel (n / 2) factor shift (square + square) (order * 2 - 1)
      else squareUp fuel (n / 2) factor shift square (order * 2)

def finitePower (x y : Float) (exponent : Parts) : Float :=
  let whole := exponent.whole
  let rest := ofScaled false
    (exponent.magnitude * twoTo exponent.exponent.toNat % twoTo (-exponent.exponent).toNat)
    (min exponent.exponent 0)
  if !exponent.isWhole && x < 0 then undefined
  else if twoTo 63 ≤ whole then
    if x == -1 then 1
    else if (x.abs < 1) == !exponent.negative then 0 else infinity false
  else
    let (whole, rest) := if 0.5 < rest then (whole + 1, rest - 1) else (whole, rest)
    let start := if exponent.isWhole then 1 else (rest * x.log).exp
    let (base, order) := fraction x
    let (factor, shift) := squareUp 64 whole start 0 base order
    if y < 0 then scale (1 / factor) (-shift) else scale factor shift

/-- Odd integers; from `2 ^ 53` on every number is even. -/
def isOdd (x : Float) : Bool :=
  match toInt? x with
  | some n => n % 2 == 1
  | none => false

def zeroPower (x y : Float) : Float :=
  let negative := isNegative x && isOdd y
  if y < 0 then infinity negative else signed negative 0

def power (x y : Float) : Float :=
  if y == 0 || x == 1 then 1
  else if y == 1 then x
  else if x.isNaN || y.isNaN then undefined
  else if x == 0 then zeroPower x y
  else if isInfinite y then
    if x == -1 then 1
    else if (x.abs < 1) == (0 < y : Bool) then 0 else infinity false
  else if isInfinite x then
    if x < 0 then zeroPower (-0.0) (-y) else if y < 0 then 0 else infinity false
  else if y == 0.5 then x.sqrt
  else if y == -0.5 then 1 / x.sqrt
  else
    match parts? y with
    | some exponent => finitePower x y exponent
    | none => undefined

end ScriptKernel.Binary64
