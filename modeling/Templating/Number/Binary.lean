/-!
# Double-precision numbers as exact quantities

A finite number is a sign and a magnitude `significand · 2 ^ exponent`.
`nearest` goes the other way: it is the number closest to a quotient of
naturals, an exact middle going to the even significand.
-/
set_option autoImplicit false

namespace Templating.Number

def twoTo (exponent : Nat) : Nat := Nat.pow 2 exponent

def tenTo (exponent : Nat) : Nat := Nat.pow 10 exponent

/-- The quantity `significand · 2 ^ exponent`. -/
structure Magnitude where
  significand : Nat
  exponent : Int
deriving DecidableEq, Repr

def isNegative (x : Float) : Bool := twoTo 63 ≤ x.toBits.toNat

def exponentField (x : Float) : Nat := x.toBits.toNat / twoTo 52 % twoTo 11

def fractionField (x : Float) : Nat := x.toBits.toNat % twoTo 52

def magnitude (x : Float) : Magnitude :=
  if exponentField x = 0 then ⟨fractionField x, -1074⟩
  else ⟨fractionField x + twoTo 52, (exponentField x : Int) - 1075⟩

def Magnitude.numerator (size : Magnitude) : Nat := size.significand * twoTo size.exponent.toNat

def Magnitude.denominator (size : Magnitude) : Nat := twoTo (-size.exponent).toNat

def Magnitude.isIntegral (size : Magnitude) : Bool :=
  size.numerator % size.denominator == 0

/-- `numerator / denominator` to the nearest natural, a half to the even one. -/
def roundQuotient (numerator denominator : Nat) : Nat :=
  let whole := numerator / denominator
  let twice := 2 * (numerator % denominator)
  if twice < denominator then whole
  else if denominator < twice then whole + 1
  else if whole % 2 = 0 then whole else whole + 1

def ofFields (negative : Bool) (bits : Nat) : Float :=
  Float.ofBits (UInt64.ofNat (if negative then bits + twoTo 63 else bits))

def infinityBits : Nat := 2047 * twoTo 52

def notANumber : Float := ofFields false (infinityBits + twoTo 51)

def infinite (negative : Bool) : Float := ofFields negative infinityBits

/-- The exponent at which `numerator / denominator` has a significand of 53
bits, or the least exponent where it has fewer. -/
def fittingExponent (numerator denominator : Nat) : Int :=
  let estimate := (numerator.log2 : Int) - denominator.log2 - 52
  let scaled : Nat := numerator * twoTo (-estimate).toNat
  let unit : Nat := denominator * twoTo estimate.toNat
  max (if scaled < unit * twoTo 52 then estimate - 1 else estimate) (-1074)

/-- The number nearest to `numerator / denominator`; what is too large is
infinite. -/
def nearest (negative : Bool) (numerator denominator : Nat) : Float :=
  if numerator = 0 then ofFields negative 0
  else
    let exponent := fittingExponent numerator denominator
    let significand :=
      roundQuotient (numerator * twoTo (-exponent).toNat) (denominator * twoTo exponent.toNat)
    ofFields negative (min ((exponent + 1074).toNat * twoTo 52 + significand) infinityBits)

/-- The whole part of a number that is not negative, at most the largest
64-bit word. -/
def wholePart (x : Float) : Nat :=
  let limit := twoTo 64 - 1
  if exponentField x = 2047 then (if fractionField x = 0 then limit else 0)
  else min ((magnitude x).numerator / (magnitude x).denominator) limit

/-- The remainder of a division whose quotient is cut toward zero.  It has the
sign of the dividend. -/
def remainder (dividend divisor : Float) : Float :=
  if dividend.isNaN || divisor.isNaN || dividend.isInf || divisor == 0 then notANumber
  else if divisor.isInf then dividend
  else
    let left := magnitude dividend
    let right := magnitude divisor
    let common := min left.exponent right.exponent
    let leftUnits := left.significand * twoTo (left.exponent - common).toNat
    let rightUnits := right.significand * twoTo (right.exponent - common).toNat
    let units := leftUnits % rightUnits
    nearest (isNegative dividend) (units * twoTo common.toNat) (twoTo (-common).toNat)

end Templating.Number
