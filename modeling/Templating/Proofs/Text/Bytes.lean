import Mathlib.Data.List.TakeWhile
import Templating.Proofs.Text.Offsets
import Templating.Text.Search
/-!
# Texts as bytes

A reader that goes through the bytes of a text takes each of them for the character
of its number.  Bytes below 128 are characters of the text; the others are parts of
wider characters, and the first of these parts is at least `0xC2`.  So a search for a
class of characters that are all narrow, or for the first one that is not among all
wide ones, ends at the same place on characters and on bytes.
-/
set_option autoImplicit false

namespace Templating.Text

/-! ## Encoding -/

/-- The bytes of a character in UTF-8, each as the character of its number. -/
def encodedChar (c : Char) : List Char :=
  (String.utf8EncodeChar c).map fun byte => Char.ofNat byte.toNat

def encoded (source : List Char) : List Char := source.flatMap encodedChar

@[simp]
theorem encoded_nil : encoded [] = [] := rfl

theorem encoded_cons (c : Char) (rest : List Char) :
    encoded (c :: rest) = encodedChar c ++ encoded rest := rfl

theorem encoded_append (left right : List Char) :
    encoded (left ++ right) = encoded left ++ encoded right := List.flatMap_append

theorem encodedChar_length (c : Char) : (encodedChar c).length = c.utf8Size := by
  unfold encodedChar
  rw [List.length_map, String.length_utf8EncodeChar]

theorem encoded_length (source : List Char) : (encoded source).length = byteLength source := by
  induction source with
  | nil => rfl
  | cons c rest ih => rw [encoded_cons, List.length_append, encodedChar_length, ih, byteLength]

/-- A character that takes more than one byte. -/
def IsWide (c : Char) : Prop := 128 ≤ c.toNat

instance (c : Char) : Decidable (IsWide c) := inferInstanceAs (Decidable (128 ≤ c.toNat))

theorem toNat_ofByte {value : Nat} (small : value < 256) :
    (Char.ofNat (UInt8.ofNat value).toNat).toNat = value := by
  rw [UInt8.toNat_ofNat_of_lt' small, Char.ofNat, dif_pos (Or.inl (by omega))]
  exact UInt32.toNat_ofNatLT

theorem encodedChar_of_narrow {c : Char} (narrow : ¬ IsWide c) : encodedChar c = [c] := by
  have small : c.val.toNat ≤ 0x7f := by
    change ¬ 128 ≤ c.val.toNat at narrow
    omega
  have byte : c.val.toNat < UInt8.size := Nat.lt_of_le_of_lt small (by decide)
  unfold encodedChar String.utf8EncodeChar
  simp only [small, if_true, List.map_cons, List.map_nil]
  rw [UInt8.toNat_ofNat_of_lt' byte]
  exact congrArg (· :: []) (Char.ofNat_toNat c)

/-- A wide character begins with a byte from the upper part of the second half, and
no other byte of it is narrow. -/
theorem encodedChar_of_wide {c : Char} (wide : IsWide c) :
    ∃ first others, encodedChar c = first :: others ∧
      (0xC2 ≤ first.toNat ∧ first.toNat < 256) ∧ ∀ d ∈ others, IsWide d := by
  have large : ¬ c.val.toNat ≤ 0x7f := by
    change 128 ≤ c.val.toNat at wide
    omega
  have bound : c.val.toNat < 0x110000 := by
    rcases c.valid with low | ⟨_, high⟩
    · exact Nat.lt_trans low (by decide)
    · exact high
  unfold encodedChar String.utf8EncodeChar IsWide
  simp only [large, if_false]
  generalize c.val.toNat = value at large bound
  -- Two, three or four bytes; each of the following ones keeps six bits.
  have following (bits : Nat) :
      128 ≤ (Char.ofNat (UInt8.ofNat (bits % 0x40 + 0x80)).toNat).toNat := by
    rw [toNat_ofByte (by omega)]
    omega
  split
  · refine ⟨_, _, rfl, ?_, ?_⟩
    · rw [toNat_ofByte (by omega)]
      omega
    · simpa using following value
  · split
    · refine ⟨_, _, rfl, ?_, ?_⟩
      · rw [toNat_ofByte (by omega)]
        omega
      · simpa using ⟨following (value / 64), following value⟩
    · refine ⟨_, _, rfl, ?_, ?_⟩
      · rw [toNat_ofByte (by omega)]
        omega
      · simpa using ⟨following (value / 4096), following (value / 64), following value⟩

theorem encodedChar_wide {c : Char} (wide : IsWide c) : ∀ d ∈ encodedChar c, IsWide d := by
  obtain ⟨first, others, same, ⟨large, _⟩, behind⟩ := encodedChar_of_wide wide
  rw [same]
  intro d held
  rcases List.mem_cons.mp held with rfl | held
  · unfold IsWide
    omega
  · exact behind d held

theorem encoded_cons_narrow {c : Char} (narrow : ¬ IsWide c) (rest : List Char) :
    encoded (c :: rest) = c :: encoded rest := by
  rw [encoded_cons, encodedChar_of_narrow narrow, List.singleton_append]

theorem utf8Size_of_narrow {c : Char} (narrow : ¬ IsWide c) : c.utf8Size = 1 := by
  rw [← encodedChar_length, encodedChar_of_narrow narrow, List.length_singleton]

theorem head_encoded (c : Char) (rest : List Char) :
    ∃ byte others, encoded (c :: rest) = byte :: others ∧
      ∀ mark, ¬ IsWide mark → (byte = mark ↔ c = mark) := by
  by_cases wide : IsWide c
  · obtain ⟨first, others, same, ⟨large, _⟩, _⟩ := encodedChar_of_wide wide
    refine ⟨first, others ++ encoded rest, by rw [encoded_cons, same, List.cons_append], ?_⟩
    intro mark narrow
    have isWide : IsWide first := Nat.le_trans (by decide) large
    exact ⟨fun eq => absurd (eq ▸ isWide) narrow, fun eq => absurd (eq ▸ wide) narrow⟩
  · exact ⟨c, encoded rest, encoded_cons_narrow wide rest, fun _ _ => Iff.rfl⟩

/-! ## Runs of bytes -/

/-- What the test on bytes says about the bytes of a character is what the test on
characters says: all of them pass, or the first one fails. -/
def Agrees (onBytes onChars : Char → Bool) : Prop :=
  ∀ c, if onChars c then ∀ d ∈ encodedChar c, onBytes d = true
    else ∃ first others, encodedChar c = first :: others ∧ onBytes first = false

theorem takeWhile_encoded {onBytes onChars : Char → Bool} (agrees : Agrees onBytes onChars)
    (source : List Char) :
    (encoded source).takeWhile onBytes = encoded (source.takeWhile onChars) := by
  induction source with
  | nil => rfl
  | cons c rest ih =>
    have here := agrees c
    rw [encoded_cons]
    by_cases passes : onChars c = true
    · rw [if_pos passes] at here
      rw [List.takeWhile_cons_of_pos passes, encoded_cons, List.takeWhile_append_of_pos here, ih]
    · rw [if_neg passes] at here
      obtain ⟨first, others, same, fails⟩ := here
      rw [List.takeWhile_cons_of_neg passes, same, List.cons_append,
        List.takeWhile_cons_of_neg (by rw [fails]; exact Bool.false_ne_true), encoded_nil]

theorem agrees_of_wide {accepts : Char → Bool} (wide : ∀ c, IsWide c → accepts c = true) :
    Agrees accepts accepts := by
  intro c
  by_cases isWide : IsWide c
  · rw [if_pos (wide c isWide)]
    exact fun d held => wide d (encodedChar_wide isWide d held)
  · rw [encodedChar_of_narrow isWide]
    by_cases passes : accepts c = true
    · rw [if_pos passes]
      simpa using passes
    · rw [if_neg passes]
      exact ⟨c, [], rfl, Bool.eq_false_iff.mpr passes⟩

theorem agrees_of_narrow {onBytes onChars : Char → Bool}
    (narrow : ∀ c, ¬ IsWide c → onBytes c = onChars c) (wide : ∀ c, IsWide c → onChars c = false)
    (first : ∀ c, 0xC2 ≤ c.toNat → c.toNat < 256 → onBytes c = false) : Agrees onBytes onChars := by
  intro c
  by_cases isWide : IsWide c
  · rw [wide c isWide, if_neg Bool.false_ne_true]
    obtain ⟨byte, others, same, bounds, _⟩ := encodedChar_of_wide isWide
    exact ⟨byte, others, same, first byte bounds.1 bounds.2⟩
  · rw [encodedChar_of_narrow isWide]
    by_cases passes : onChars c = true
    · rw [if_pos passes]
      simpa [narrow c isWide] using passes
    · rw [if_neg passes]
      exact ⟨c, [], rfl, by rw [narrow c isWide]; exact Bool.eq_false_iff.mpr passes⟩

/-! ## Patterns of narrow characters -/

theorem dropLeading_encoded {pattern : List Char} (narrow : ∀ c ∈ pattern, ¬ IsWide c)
    (source : List Char) :
    dropLeading? pattern (encoded source) = (dropLeading? pattern source).map encoded := by
  induction pattern generalizing source with
  | nil => rfl
  | cons p pattern ih =>
    cases source with
    | nil => rfl
    | cons c rest =>
      obtain ⟨isNarrow, others⟩ := List.forall_mem_cons.mp narrow
      by_cases same : c = p
      · subst same
        rw [encoded_cons_narrow isNarrow, dropLeading?, dropLeading?, if_pos rfl, if_pos rfl]
        exact ih others rest
      · obtain ⟨byte, behind, split, marks⟩ := head_encoded c rest
        have differs : byte ≠ p := fun eq => same ((marks p isNarrow).mp eq)
        rw [split, dropLeading?, dropLeading?, if_neg (Ne.symm differs), if_neg (Ne.symm same)]
        rfl

theorem startsWith_encoded {pattern : List Char} (narrow : ∀ c ∈ pattern, ¬ IsWide c)
    (source : List Char) : startsWith pattern (encoded source) = startsWith pattern source := by
  unfold startsWith
  rw [dropLeading_encoded narrow, Option.isSome_map]

theorem asciiLower_of_wide {c : Char} (wide : IsWide c) : asciiLower c = c := by
  unfold asciiLower
  refine if_neg fun ⟨_, upper⟩ => ?_
  have bound : c.toNat ≤ 90 := upper
  unfold IsWide at wide
  omega

theorem byteLength_map_asciiLower (source : List Char) :
    byteLength (source.map asciiLower) = byteLength source := by
  induction source with
  | nil => rfl
  | cons c rest ih =>
    rw [List.map_cons, byteLength, byteLength, ih]
    by_cases wide : IsWide c
    · rw [asciiLower_of_wide wide]
    · refine congrArg (· + byteLength rest) ?_
      have narrow : ¬ IsWide (asciiLower c) := by
        unfold asciiLower
        split
        · next letter =>
          have bound : c.toNat ≤ 90 := letter.2
          have isValid : (c.toNat + 32).isValidChar := Or.inl (by omega)
          unfold IsWide Char.ofNat
          rw [dif_pos isValid]
          change ¬ 128 ≤ c.toNat + 32
          omega
        · exact wide
      rw [utf8Size_of_narrow narrow, utf8Size_of_narrow wide]

theorem byteLength_of_narrow {source : List Char} (narrow : ∀ c ∈ source, ¬ IsWide c) :
    byteLength source = source.length := by
  induction source with
  | nil => rfl
  | cons c rest ih =>
    obtain ⟨here, others⟩ := List.forall_mem_cons.mp narrow
    rw [byteLength, utf8Size_of_narrow here, ih others, List.length_cons, Nat.add_comm]

/-! ## Slices -/

def dropBytes? : Nat → List Char → Option (List Char)
  | 0, rest => some rest
  | _ + 1, [] => none
  | count + 1, c :: rest =>
    if c.utf8Size ≤ count + 1 then dropBytes? (count + 1 - c.utf8Size) rest else none

def takeBytes? : Nat → List Char → Option (List Char)
  | 0, _ => some []
  | _ + 1, [] => none
  | count + 1, c :: rest =>
    if c.utf8Size ≤ count + 1 then (takeBytes? (count + 1 - c.utf8Size) rest).map (c :: ·) else none

/-- The text between two offsets.  There is none where the offsets are in the wrong
order or not at boundaries. -/
def slice? (source : List Char) (start stop : Nat) : Option (List Char) :=
  if start ≤ stop then (dropBytes? start source).bind (takeBytes? (stop - start)) else none

theorem byteLength_cons_ne (c : Char) (rest : List Char) :
    ∃ count, byteLength (c :: rest) = count + 1 ∧ c.utf8Size ≤ count + 1 ∧
      count + 1 - c.utf8Size = byteLength rest := by
  have some := c.utf8Size_pos
  exact ⟨byteLength (c :: rest) - 1, by rw [byteLength]; omega, by rw [byteLength]; omega,
    by rw [byteLength]; omega⟩

theorem dropBytes_eq_some_iff {count : Nat} {source rest : List Char} :
    dropBytes? count source = some rest ↔
      ∃ before, source = before ++ rest ∧ count = byteLength before := by
  constructor
  · intro dropped
    induction source generalizing count with
    | nil =>
      cases count with
      | zero => exact ⟨[], by simpa [dropBytes?] using dropped, rfl⟩
      | succ count => cases dropped
    | cons c source ih =>
      cases count with
      | zero => exact ⟨[], by simpa [dropBytes?] using dropped, rfl⟩
      | succ count =>
        unfold dropBytes? at dropped
        split at dropped
        · obtain ⟨before, rfl, length⟩ := ih dropped
          exact ⟨c :: before, rfl, by rw [byteLength]; omega⟩
        · cases dropped
  · rintro ⟨before, rfl, rfl⟩
    induction before with
    | nil => cases rest <;> rfl
    | cons c before ih =>
      obtain ⟨count, same, fits, left⟩ := byteLength_cons_ne c before
      rw [same, List.cons_append, dropBytes?, if_pos fits, left]
      exact ih

theorem takeBytes_eq_some_iff {count : Nat} {source inside : List Char} :
    takeBytes? count source = some inside ↔
      ∃ behind, source = inside ++ behind ∧ count = byteLength inside := by
  constructor
  · intro taken
    induction source generalizing count inside with
    | nil =>
      cases count with
      | zero => cases taken; exact ⟨[], rfl, rfl⟩
      | succ count => cases taken
    | cons c source ih =>
      cases count with
      | zero => cases taken; exact ⟨c :: source, rfl, rfl⟩
      | succ count =>
        unfold takeBytes? at taken
        split at taken
        · obtain ⟨others, rest, rfl⟩ := Option.map_eq_some_iff.mp taken
          obtain ⟨behind, rfl, length⟩ := ih rest
          exact ⟨behind, rfl, by rw [byteLength]; omega⟩
        · cases taken
  · rintro ⟨behind, rfl, rfl⟩
    induction inside with
    | nil => cases behind <;> rfl
    | cons c inside ih =>
      obtain ⟨count, same, fits, left⟩ := byteLength_cons_ne c inside
      rw [same, List.cons_append, takeBytes?, if_pos fits, left, ih]
      rfl

theorem slice_eq_some_iff {source inside : List Char} {start stop : Nat} :
    slice? source start stop = some inside ↔
      ∃ before behind, source = before ++ inside ++ behind ∧ start = byteLength before ∧
        stop = byteLength (before ++ inside) := by
  unfold slice?
  constructor
  · intro sliced
    split at sliced
    · next ordered =>
      obtain ⟨rest, dropped, taken⟩ := Option.bind_eq_some_iff.mp sliced
      obtain ⟨before, rfl, rfl⟩ := dropBytes_eq_some_iff.mp dropped
      obtain ⟨behind, rfl, length⟩ := takeBytes_eq_some_iff.mp taken
      refine ⟨before, behind, (List.append_assoc ..).symm, rfl, ?_⟩
      rw [byteLength_append]
      omega
    · cases sliced
  · rintro ⟨before, behind, rfl, rfl, rfl⟩
    rw [byteLength_append, if_pos (Nat.le_add_right ..), List.append_assoc,
      dropBytes_eq_some_iff.mpr ⟨before, rfl, rfl⟩, Nat.add_sub_cancel_left]
    exact takeBytes_eq_some_iff.mpr ⟨behind, rfl, rfl⟩

end Templating.Text
