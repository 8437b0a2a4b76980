import Templating.Text.Search
/-!
# Numerals

Natural numbers in a given base.  A numeral is an optional plus sign and at
least one digit; it is read only where its value is below a bound.
-/
set_option autoImplicit false

namespace Templating.Text

/-- The value of a digit of a base up to sixteen, in either case. -/
def digitValue? (base : Nat) (c : Char) : Option Nat :=
  let value? :=
    if isAsciiDigit c then some (c.toNat - '0'.toNat)
    else if 'a' ≤ c ∧ c ≤ 'f' then some (c.toNat - 'a'.toNat + 10)
    else if 'A' ≤ c ∧ c ≤ 'F' then some (c.toNat - 'A'.toNat + 10)
    else none
  value?.filter (· < base)

def digitsValue? (base : Nat) : Nat → List Char → Option Nat
  | value, [] => some value
  | value, c :: rest =>
    match digitValue? base c with
    | some digit => digitsValue? base (value * base + digit) rest
    | none => none

def readNatural? (base bound : Nat) (source : List Char) : Option Nat :=
  let digits := (dropLeading? ['+'] source).getD source
  if digits.isEmpty then none else (digitsValue? base 0 digits).filter (· < bound)

def wordBound : Nat := 4294967296

def longBound : Nat := 18446744073709551616

def readWord? (source : List Char) : Option Nat := readNatural? 10 wordBound source

/-- Numbers of a 64-bit word, in decimal: the positions in a list. -/
def readIndex? (source : List Char) : Option Nat := readNatural? 10 longBound source

/-- The character with the code point `code`; surrogates and what lies beyond
the last plane name none. -/
def character? (code : Nat) : Option Char :=
  if h : code.isValidChar then some ⟨code.toUInt32, by
    have bound : code < 4294967296 := by
      rcases h with small | ⟨_, large⟩ <;> omega
    simpa [UInt32.isValidChar, Nat.toUInt32, UInt32.toNat_ofNat_of_lt' bound] using h⟩
  else none

def hexDigits (width value : Nat) : List Char :=
  let digits := (Nat.toDigits 16 value)
  List.replicate (width - digits.length) '0' ++ digits

end Templating.Text
