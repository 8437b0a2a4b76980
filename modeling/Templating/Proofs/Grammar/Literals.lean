import Templating.Proofs.Grammar.Locality
/-!
# Text literals are read back

A literal is balanced and is read as the text that it was written for, whatever
the text and whatever follows.
-/
set_option autoImplicit false

namespace Templating.Text.Literal

def numberedChars : List Char := ((0x2028 :: 0x2029 :: List.range 0x20).map Char.ofNat)

theorem mem_numberedChars {c : Char}
    (numbered : c.toNat = 0x2028 ∨ c.toNat = 0x2029 ∨ c.toNat < 0x20) : c ∈ numberedChars := by
  refine List.mem_map.mpr ⟨c.toNat, ?_, Char.ofNat_toNat c⟩
  simpa using numbered

theorem decodeUnicode_hexDigits :
    ∀ c ∈ numberedChars, decodeUnicode (hexDigits 4 c.toNat) = [c] ∧
      (hexDigits 4 c.toNat).length = 4 := by
  have all : numberedChars.all (fun c => decodeUnicode (hexDigits 4 c.toNat) == [c] &&
      (hexDigits 4 c.toNat).length == 4) = true := by decide +kernel
  simpa using all

def isUnescaped (c : Char) : Bool := c != '\\' && c != '\x22' && c != '\n'

theorem hexDigits_unescaped :
    ∀ c ∈ numberedChars, ∀ d ∈ hexDigits 4 c.toNat, isUnescaped d = true := by
  have all : numberedChars.all (fun c => (hexDigits 4 c.toNat).all isUnescaped) = true := by
    decide +kernel
  simpa only [List.all_eq_true] using all

theorem encodeChar_cases (c : Char) :
    (encodeChar c = [c] ∧ isUnescaped c = true) ∨
      ∃ d more, encodeChar c = '\\' :: d :: more ∧ ∀ e ∈ more, isUnescaped e = true := by
  unfold encodeChar
  repeat' split
  all_goals first
    | exact .inr ⟨_, [], rfl, by simp⟩
    | exact .inl ⟨rfl, by simp [isUnescaped, *]⟩
    | skip
  next numbered =>
    exact .inr ⟨'u', hexDigits 4 c.toNat, rfl, hexDigits_unescaped c (mem_numberedChars numbered)⟩

theorem decodeEscapes_unescaped {c : Char} (plain : c ≠ '\\') (rest : List Char) :
    decodeEscapes (c :: rest) = c :: decodeEscapes rest := by
  simp [decodeEscapes, plain]

theorem decodeEscapes_unicode {digits : List Char} (four : digits.length = 4) (rest : List Char) :
    decodeEscapes ('\\' :: 'u' :: digits ++ rest) = decodeUnicode digits ++ decodeEscapes rest := by
  match digits, four with
  | [a, b, c, d], _ => rfl

theorem decodeEscapes_encodeChar (c : Char) (rest : List Char) :
    decodeEscapes (encodeChar c ++ rest) = c :: decodeEscapes rest := by
  unfold encodeChar
  repeat' split
  all_goals first
    | (subst c; simp [decodeEscapes, decodeEscape])
    | skip
  · next numbered =>
    obtain ⟨same, four⟩ := decodeUnicode_hexDigits c (mem_numberedChars numbered)
    rw [decodeEscapes_unicode four, same]
    rfl
  · exact decodeEscapes_unescaped (by assumption) rest

/-- Reading what is written between the quotes gives the text back. -/
theorem decodeEscapes_flatMap (source : List Char) :
    decodeEscapes (source.flatMap encodeChar) = source := by
  induction source with
  | nil => rfl
  | cons c rest ih => rw [List.flatMap_cons, decodeEscapes_encodeChar, ih]

end Templating.Text.Literal

namespace Templating.Expression

open Templating.Text Templating.Text.Literal

theorem closesText_unescaped_iff {taken : List Char} (plain : ∀ c ∈ taken, isUnescaped c = true)
    (expected rest : List Char) :
    ClosesText '\x22' expected (taken ++ rest) ↔ ClosesText '\x22' expected rest := by
  induction taken with
  | nil => rfl
  | cons c others ih =>
    have unescaped := plain c List.mem_cons_self
    simp only [isUnescaped, Bool.and_eq_true, bne_iff_ne, ne_eq] at unescaped
    rw [List.cons_append, closesText_cons_iff unescaped.1.2 unescaped.1.1,
      ih fun d held => plain d (List.mem_cons_of_mem c held)]
    simp [unescaped.2]

theorem closesText_encodeChar_iff (c : Char) (expected rest : List Char) :
    ClosesText '\x22' expected (encodeChar c ++ rest) ↔ ClosesText '\x22' expected rest := by
  obtain ⟨written, unescaped⟩ | ⟨d, more, written, unescaped⟩ := encodeChar_cases c
  · rw [written, closesText_unescaped_iff (by simpa using unescaped)]
  · rw [written, List.cons_append, List.cons_append, closesText_escape_iff,
      closesText_unescaped_iff unescaped]

theorem closes_encodeChars_iff (content expected rest : List Char) :
    Closes expected (encodeChars content ++ rest) ↔ Closes expected rest := by
  have inside : ClosesText '\x22' expected (content.flatMap encodeChar ++ ('\x22' :: rest)) ↔
      ClosesText '\x22' expected ('\x22' :: rest) := by
    induction content with
    | nil => rfl
    | cons c others ih => rw [List.flatMap_cons, List.append_assoc, closesText_encodeChar_iff, ih]
  rw [encodeChars, List.append_assoc, List.cons_append, closes_quote_iff rfl,
    List.singleton_append, inside, closesText_end_iff (by decide)]

namespace Grammar

theorem textInside_encodeChar (c : Char) {rest inside behind : List Char}
    (found : textInside '\x22' rest = some (inside, behind)) :
    textInside '\x22' (encodeChar c ++ rest) = some (encodeChar c ++ inside, behind) := by
  have unescaped : ∀ taken : List Char, (∀ c ∈ taken, isUnescaped c = true) →
      textInside '\x22' (taken ++ rest) = some (taken ++ inside, behind) := by
    intro taken plain
    induction taken with
    | nil => exact found
    | cons d others ih =>
      have unescaped := plain d List.mem_cons_self
      simp only [isUnescaped, Bool.and_eq_true, bne_iff_ne, ne_eq] at unescaped
      rw [List.cons_append, textInside_cons unescaped.1.2 unescaped.1.1,
        ih fun e held => plain e (List.mem_cons_of_mem d held)]
      rfl
  obtain ⟨written, plain⟩ | ⟨d, more, written, plain⟩ := encodeChar_cases c
  · rw [written]
    exact unescaped [c] (by simpa using plain)
  · rw [written, List.cons_append, List.cons_append, textInside, unescaped more plain]
    rfl

theorem textLiteral_encodeChars (content rest : List Char) :
    textLiteral (encodeChars content ++ rest) = some (String.ofList content, rest) := by
  have inside : textInside '\x22' (content.flatMap encodeChar ++ '\x22' :: rest) =
      some (content.flatMap encodeChar, rest) := by
    induction content with
    | nil => simp [textInside]
    | cons c others ih =>
      rw [List.flatMap_cons, List.append_assoc, textInside_encodeChar c ih]
  have start : encodeChars content ++ rest =
      '\x22' :: (content.flatMap encodeChar ++ '\x22' :: rest) := by simp [encodeChars]
  simp [textLiteral, start, skipBlanks, isSeparatingBlank, inside, decode, decodeEscapes_flatMap]

end Grammar

end Templating.Expression
