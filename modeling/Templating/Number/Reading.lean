import Templating.Number.Binary
import Templating.Text.Blank
import Templating.Text.Numeral
/-!
# Reading numbers

A decimal is digits with at most one point among or around them and an
optional exponent.  `inf`, `infinity` and `nan` are numbers too, in any case.
-/
set_option autoImplicit false

namespace Templating.Number

open Templating.Text

/-- The number nearest to `digits · 10 ^ exponent`.  Exponents far outside the
range of numbers are decided without computing the power. -/
def ofDecimal (negative : Bool) (digits : Nat) (digitCount : Nat) (exponent : Int) : Float :=
  if digits = 0 then ofFields negative 0
  else if 400 < exponent then infinite negative
  else if exponent < -((digitCount : Int) + 400) then ofFields negative 0
  else nearest negative (digits * tenTo exponent.toNat) (tenTo (-exponent).toNat)

def exponent? : List Char → Option Int
  | [] => some 0
  | mark :: rest =>
    if mark = 'e' ∨ mark = 'E' then
      let negative := rest.head? == some '-'
      let digits := if negative || rest.head? == some '+' then rest.tail else rest
      if digits.isEmpty then none
      else (digitsValue? 10 0 digits).map fun value => if negative then -(value : Int) else value
    else none

def unsigned? (negative : Bool) (source : List Char) : Option Float :=
  let whole := source.takeWhile isAsciiDigit
  let afterWhole := source.dropWhile isAsciiDigit
  let pointed := afterWhole.head? == some '.'
  let fraction := if pointed then afterWhole.tail.takeWhile isAsciiDigit else []
  let rest := if pointed then afterWhole.tail.dropWhile isAsciiDigit else afterWhole
  let digits := whole ++ fraction
  if digits.isEmpty then none
  else
    match digitsValue? 10 0 digits, exponent? rest with
    | some value, some exponent =>
      some (ofDecimal negative value digits.length (exponent - fraction.length))
    | _, _ => none

def read? (source : List Char) : Option Float :=
  let negative := source.head? == some '-'
  let rest := if negative || source.head? == some '+' then source.tail else source
  let name := String.ofList (rest.map asciiLower)
  if name == "inf" || name == "infinity" then some (infinite negative)
  else if name == "nan" then some notANumber
  else unsigned? negative rest

/-- The number a text stands for in arithmetic: blank text is zero. -/
def ofText (s : String) : Float :=
  let source := trim s.toList
  if source.isEmpty then 0 else (read? source).getD notANumber

end Templating.Number
