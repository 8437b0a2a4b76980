import Mathlib.Data.List.TakeWhile
import Templating.Number.Reading
/-!
# Decimals of natural numbers

The decimal of a natural number is read back as the number nearest to it.
-/
set_option autoImplicit false

namespace Templating.Text

theorem isAsciiDigit_eq_isDigit (c : Char) : isAsciiDigit c = c.isDigit := by
  simp [isAsciiDigit, Char.isDigit, Char.le_def]

theorem toNat_of_isAsciiDigit {c : Char} (digit : isAsciiDigit c = true) :
    48 ≤ c.toNat ∧ c.toNat ≤ 57 := by
  simp only [isAsciiDigit, Bool.and_eq_true, decide_eq_true_eq, Char.le_def,
    UInt32.le_iff_toNat_le] at digit
  exact digit

theorem digitsValue_ten {digits : List Char} (digit : ∀ c ∈ digits, isAsciiDigit c = true)
    (value : Nat) : digitsValue? 10 value digits = some (Nat.ofDigitChars 10 digits value) := by
  induction digits generalizing value with
  | nil => rfl
  | cons c rest ih =>
    have first := digit c List.mem_cons_self
    have bounds := toNat_of_isAsciiDigit first
    have below : c.toNat - 48 < 10 := by omega
    have taken : digitValue? 10 c = some (c.toNat - '0'.toNat) := by
      simp [digitValue?, first, below]
    rw [digitsValue?, taken, Nat.ofDigitChars_cons, Nat.mul_comm]
    exact ih (fun d held => digit d (List.mem_cons_of_mem c held)) _

theorem asciiLower_of_isAsciiDigit {c : Char} (digit : isAsciiDigit c = true) : asciiLower c = c := by
  have bounds := toNat_of_isAsciiDigit digit
  refine if_neg fun ⟨capital, _⟩ => ?_
  simp only [Char.le_def, UInt32.le_iff_toNat_le] at capital
  have low : 65 ≤ c.toNat := capital
  omega

theorem toDigits_isAsciiDigit (value : Nat) : ∀ c ∈ Nat.toDigits 10 value, isAsciiDigit c = true := by
  intro c held
  rw [isAsciiDigit_eq_isDigit]
  exact Nat.isDigit_of_mem_toDigits (by decide) (by decide) held

end Templating.Text

namespace Templating.Number

open Templating.Text

theorem ofDecimal_zero (value count : Nat) :
    ofDecimal false value count 0 = nearest false value 1 := by
  unfold ofDecimal
  split
  · next zero => simp [zero, nearest]
  · have notLarge : ¬ (400 : Int) < 0 := by decide
    have notSmall : ¬ (0 : Int) < -((count : Int) + 400) := by omega
    rw [if_neg notLarge, if_neg notSmall]
    simp [tenTo]

/-- What `toString` writes is read as the nearest number. -/
theorem read_toDigits (value : Nat) :
    read? (Nat.toDigits 10 value) = some (nearest false value 1) := by
  have digit := toDigits_isAsciiDigit value
  obtain ⟨c, rest, split⟩ := List.exists_cons_of_ne_nil (Nat.toDigits_ne_nil (n := value) (b := 10))
  have first := digit c (by simp [split])
  have other : ∀ d, isAsciiDigit d = false → c ≠ d := by
    rintro d none rfl
    simp [first] at none
  have lowered : (c :: rest).map asciiLower = c :: rest := by
    refine (List.map_congr_left fun d held => ?_).trans (List.map_id _)
    exact asciiLower_of_isAsciiDigit (digit d (split ▸ held))
  have named : ∀ word : String, word.toList.head?.any isAsciiDigit = false →
      String.ofList (c :: rest) ≠ word := by
    rintro word noDigit rfl
    simp [first] at noDigit
  have whole : (c :: rest).takeWhile isAsciiDigit = c :: rest :=
    List.takeWhile_eq_self_iff.mpr fun d held => digit d (split ▸ held)
  have left : (c :: rest).dropWhile isAsciiDigit = [] :=
    List.dropWhile_eq_nil_iff.mpr fun d held => digit d (split ▸ held)
  have digits : digitsValue? 10 0 (c :: rest) = some value := by
    rw [← split, digitsValue_ten digit, Nat.ofDigitChars_ten_toDigits]
  rw [split]
  have unsigned : unsigned? false (c :: rest) = some (nearest false value 1) := by
    simp [unsigned?, whole, left, digits, exponent?, ofDecimal_zero]
  have noMinus : (some c == some '-') = false :=
    beq_eq_false_iff_ne.mpr fun same => other '-' rfl (Option.some.inj same)
  have noPlus : (some c == some '+') = false :=
    beq_eq_false_iff_ne.mpr fun same => other '+' rfl (Option.some.inj same)
  have noInf := beq_eq_false_iff_ne.mpr (named "inf" rfl)
  have noInfinity := beq_eq_false_iff_ne.mpr (named "infinity" rfl)
  have noName := beq_eq_false_iff_ne.mpr (named "nan" rfl)
  simp only [read?, List.head?_cons, noMinus, noPlus, Bool.or_self, Bool.false_eq_true, if_false,
    lowered, noInf, noInfinity, noName, unsigned]

end Templating.Number
