import Templating.Number.Binary
import Templating.Text.Search
/-!
# Decimal text of numbers

`shortest` finds the fewest digits that read back as the same number, and of
those the nearest to it.  `display` is the text of a number in output: every
digit of an integer below `10 ^ 21`, otherwise the shortest digits, never with
an exponent.  `fixed` has a given number of places.
-/
set_option autoImplicit false

namespace Templating.Number

/-- The quantity `digits · 10 ^ exponent`. -/
structure Decimal where
  digits : Nat
  exponent : Int
deriving DecidableEq, Repr

def leadingExponent (numerator denominator : Nat) : Int :=
  if denominator ≤ numerator then ((Nat.toDigits 10 (numerator / denominator)).length : Int) - 1
  else
    let places := (Nat.toDigits 10 (denominator / numerator)).length
    if denominator = numerator * tenTo (places - 1) then 1 - (places : Int) else -(places : Int)

/-- The reals that read as one number: between `low` and `high`, around
`middle`, in units of `2 ^ exponent`. -/
structure Interval where
  low : Nat
  middle : Nat
  high : Nat
  exponent : Int
  closed : Bool

/-- Half the distance to each neighbour; below a power of two the neighbour is
nearer. -/
def interval (x : Float) : Interval :=
  let size := magnitude x
  let nearBelow := fractionField x == 0 && 1 < exponentField x
  { low := 4 * size.significand - (if nearBelow then 1 else 2)
    middle := 4 * size.significand
    high := 4 * size.significand + 2
    exponent := size.exponent - 2
    closed := size.significand % 2 == 0 }

def Interval.holds (around : Interval) (scale candidate : Nat) : Bool :=
  if around.closed then around.low * scale ≤ candidate && candidate ≤ around.high * scale
  else around.low * scale < candidate && candidate < around.high * scale

/-- The point of the grid `10 ^ place` that lies in the interval; of two the
nearer to the middle, and the upper one where both are equally near. -/
def Interval.gridPoint? (around : Interval) (place : Int) : Option Decimal :=
  let scale := twoTo around.exponent.toNat * tenTo (-place).toNat
  let unit := tenTo place.toNat * twoTo (-around.exponent).toNat
  let middle := around.middle * scale
  let below := middle / unit
  let above := below + 1
  match around.holds scale (below * unit), around.holds scale (above * unit) with
  | true, true =>
    some ⟨if above * unit - middle ≤ middle - below * unit then above else below, place⟩
  | true, false => some ⟨below, place⟩
  | false, true => some ⟨above, place⟩
  | false, false => none

/-- A last digit that is zero moved into the exponent: the first grid may
reach the next power of ten. -/
def Decimal.withoutZero (quantity : Decimal) : Decimal :=
  if quantity.digits % 10 = 0 then ⟨quantity.digits / 10, quantity.exponent + 1⟩ else quantity

/-- The fewest digits that read back as `x`, a finite number other than zero. -/
def shortest (x : Float) : Decimal :=
  let size := magnitude x
  let leading := leadingExponent size.numerator size.denominator
  match (List.range 17).findSome? fun (more : Nat) => (interval x).gridPoint? (leading - more) with
  | some quantity => quantity.withoutZero
  | none => ⟨0, 0⟩

/-- A quantity of `10 ^ -places`, with a point where there are places. -/
def withPoint (digits places : Nat) : String :=
  if places = 0 then toString digits
  else
    let text := Nat.toDigits 10 digits
    let padded := List.replicate (places + 1 - text.length) '0' ++ text
    let whole := padded.length - places
    String.ofList (padded.take whole ++ '.' :: padded.drop whole)

def Decimal.positional (quantity : Decimal) : String :=
  if 0 ≤ quantity.exponent then toString (quantity.digits * tenTo quantity.exponent.toNat)
  else withPoint quantity.digits (-quantity.exponent).toNat

def signed (negative : Bool) (text : String) : String := if negative then "-" ++ text else text

def display (x : Float) : String :=
  if x.isNaN then "NaN"
  else if x.isInf then signed (isNegative x) "Infinity"
  else
    let size := magnitude x
    if size.significand = 0 then "0"
    else if size.isIntegral && size.numerator / size.denominator < tenTo 21 then
      signed (isNegative x) (toString (size.numerator / size.denominator))
    else signed (isNegative x) (shortest x).positional

/-- The number with `places` digits after the point, a half going to the even
digit.  The sign stays even where only zeros are left. -/
def fixed (places : Nat) (x : Float) : String :=
  if x.isNaN then "NaN"
  else if x.isInf then signed (isNegative x) "inf"
  else
    let size := magnitude x
    signed (isNegative x)
      (withPoint (roundQuotient (size.numerator * tenTo places) size.denominator) places)

end Templating.Number
