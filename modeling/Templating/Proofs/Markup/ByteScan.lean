import Templating.Proofs.Markup.Tiling
import Templating.Proofs.Text.Bytes
/-!
# Scanning bytes

The scanner as it goes through the bytes of a source with an index: each loop tests
single bytes, and texts are cut out between two indices.  A cut fails where the
indices are in the wrong order or inside of a character.

No cut fails, and the tokens are those of `scan`, where no comment would close before
it has been opened.
-/
set_option autoImplicit false

namespace Templating.Markup

open Templating.Text

/-! ## The scanner on bytes -/

namespace ByteScan

section

variable (source : List Char)

def bytesFrom (index : Nat) : List Char := (encoded source).drop index

def byte? (index : Nat) : Option Char := (bytesFrom source index).head?

def skip (accepts : Char → Bool) (index : Nat) : Nat :=
  index + ((bytesFrom source index).takeWhile accepts).length

def past (index : Nat) : Nat := if index < byteLength source then index + 1 else index

def text? (start stop : Nat) : Option String := (slice? source start stop).map String.ofList

def rest? (index : Nat) : Option (List Char) := slice? source index (byteLength source)

def find? (pattern : List Char) (index : Nat) : Option (Option Nat) :=
  (rest? source index).map fun rest =>
    (breakAt? pattern rest).map fun found => index + byteLength found.1

def readValue? (index : Nat) : Option (Option String × Nat) :=
  match byte? source index with
  | none => some (none, index)
  | some quote =>
    if quote = '\x22' ∨ quote = '\x27' then
      let stop := skip source (· ≠ quote) (index + 1)
      (text? source (index + 1) stop).map fun value => (some value, past source stop)
    else
      let stop := skip source (fun byte => !endsPlainValue byte) index
      if index < stop then (text? source index stop).map fun value => (some value, stop)
      else some (none, index)

def readAttribute? (index : Nat) : Option (Option SourceAttribute × Nat) :=
  let nameStop := index + (attributeName 0 (bytesFrom source index)).1.length
  if nameStop = index then some (none, index)
  else
    (text? source index nameStop).bind fun name =>
      let ahead := skip source isBlank nameStop
      if byte? source ahead = some '=' then
        (readValue? source (skip source isBlank (ahead + 1))).map fun valued =>
          (some ⟨name, valued.1, ⟨index, valued.2⟩⟩, valued.2)
      else some (some ⟨name, none, ⟨index, nameStop⟩⟩, nameStop)

/-- The attributes of a start tag; inside of the result there is none where the
source ends inside the tag. -/
def readAttributes? : Nat → Nat → Option (Option (List SourceAttribute × Bool × Nat))
  | 0, _ => none
  | fuel + 1, index =>
    let here := skip source isBlank index
    match byte? source here with
    | none => some none
    | some byte =>
      if byte = '>' then some (some ([], false, here + 1))
      else if byte = '/' then
        if byte? source (here + 1) = some '>' then some (some ([], true, here + 2))
        else readAttributes? fuel (here + 1)
      else
        (readAttribute? source here).bind fun found =>
          match found.1 with
          | none => readAttributes? fuel (here + 1)
          | some item =>
            (readAttributes? fuel found.2).map fun others =>
              others.map fun behind => (item :: behind.1, behind.2)

def readStartTag? (index : Nat) : Option (Token × Nat) :=
  let nameStop := skip source isTagNameChar (index + 1)
  (text? source (index + 1) nameStop).bind fun name =>
    (readAttributes? source (byteLength source + 1) nameStop).bind fun
      | some (attributes, selfClosing, stop) =>
        some (.startTag name attributes selfClosing ⟨index, stop⟩, stop)
      | none =>
        (text? source index (byteLength source)).map fun content =>
          (.malformed content ⟨index, byteLength source⟩, byteLength source)

def readEndTag? (index : Nat) : Option (Token × Nat) :=
  let nameStop := skip source isTagNameChar (index + 2)
  (text? source (index + 2) nameStop).map fun name =>
    let stop := past source (skip source (· ≠ '>') nameStop)
    (.endTag name ⟨index, stop⟩, stop)

def readText? (index : Nat) : Option (Token × Nat) :=
  let stop := index + 1 + (beforeTag (bytesFrom source (index + 1))).1.length
  (text? source index stop).map fun content => (.text content ⟨index, stop⟩, stop)

def readComment? (index : Nat) : Option (Token × Nat) :=
  (find? source ['-', '-', '>'] index).bind fun
    | some stop =>
      (text? source (index + 4) stop).map fun content =>
        (.comment content ⟨index, stop + 3⟩, stop + 3)
    | none => readText? source index

def given (found : Token × Nat) : Option Token × Nat := (some found.1, found.2)

def readDeclaration? (closing : List Char) (index : Nat) : Option (Option Token × Nat) :=
  (find? source closing index).bind fun
    | some stop => some (none, stop + closing.length)
    | none => (readText? source index).map given

/-- What stands at the index; no token for a declaration. -/
def readStep? (index : Nat) : Option (Option Token × Nat) :=
  let bytes := bytesFrom source index
  if !opensTag bytes then (readText? source index).map given
  else if startsWith ['<', '!', '-', '-'] bytes then (readComment? source index).map given
  else if startsWith ['<', '!', '['] bytes then readDeclaration? source [']', '>'] index
  else if startsWith ['<', '!'] bytes then readDeclaration? source ['>'] index
  else if startsWith ['<', '/'] bytes then (readEndTag? source index).map given
  else (readStartTag? source index).map given

/-- The text up to the end tag of `tag`, or nothing where it stands here. -/
def readPlainText? (tag : String) (index : Nat) : Option (Option Token × Nat) :=
  (rest? source index).bind fun rest =>
    let closing := '<' :: '/' :: tag.toList.map asciiLower
    let stop := ((breakAt? closing (rest.map asciiLower)).map fun found =>
      index + byteLength found.1).getD (byteLength source)
    if index < stop then
      (text? source index stop).map fun content => given (.text content ⟨index, stop⟩, stop)
    else some (none, stop)

def readFrom? : Nat → Option String → Nat → Option (List Token)
  | 0, _, _ => none
  | fuel + 1, plain, index =>
    (plain.elim (some (none, index)) fun tag => readPlainText? source tag index).bind fun content =>
      match content.1 with
      | some token => (readFrom? fuel none content.2).map (token :: ·)
      | none =>
        if byteLength source ≤ content.2 then some []
        else
          (readStep? source content.2).bind fun found =>
            match found.1 with
            | none => readFrom? fuel none found.2
            | some token => (readFrom? fuel token.plainTextTag? found.2).map (token :: ·)

end

def tokens? (source : String) : Option (List Token) :=
  readFrom? source.toList (byteLength source.toList + 1) none 0

/-! ## Tests on bytes -/

theorem isTagNameChar_of_large {c : Char} (large : 128 ≤ c.toNat) : isTagNameChar c = false := by
  have letters (bound : Char) (small : bound.toNat < 128) : ¬ c ≤ bound := by
    intro below
    have : c.toNat ≤ bound.toNat := below
    omega
  have differs (mark : Char) (small : mark.toNat < 128) : ¬ c = mark := by
    rintro rfl
    omega
  simp [isTagNameChar, isAsciiWord, isAsciiLetter, isAsciiDigit, letters, differs]

theorem isAsciiLetter_of_large {c : Char} (large : 128 ≤ c.toNat) : isAsciiLetter c = false := by
  have noName := isTagNameChar_of_large large
  simp only [isTagNameChar, isAsciiWord, Bool.or_eq_false_iff] at noName
  exact noName.1.1.1.1.1

theorem ne_of_wide {c mark : Char} (wide : IsWide c) (narrow : ¬ IsWide mark) : ¬ c = mark := by
  rintro rfl
  exact narrow wide

theorem beq_of_wide {c mark : Char} (wide : IsWide c) (narrow : ¬ IsWide mark) : (c == mark) = false :=
  beq_false_of_ne (ne_of_wide wide narrow)

theorem isAttributeNameChar_of_wide {c : Char} (wide : IsWide c) : isAttributeNameChar c = true := by
  simp (disch := decide) only [isAttributeNameChar, isAsciiBlank, beq_of_wide wide, Bool.or_false,
    Bool.not_false]

theorem agrees_tagName : Agrees isTagNameChar isTagNameChar :=
  agrees_of_narrow (fun _ _ => rfl) (fun _ wide => isTagNameChar_of_large wide)
    fun _ large _ => isTagNameChar_of_large (Nat.le_trans (by decide) large)

/-- On bytes all blanks are skipped, but behind a name there is none that is wide. -/
theorem agrees_blank : Agrees isBlank isTagBlank := by
  refine agrees_of_narrow ?_ ?_ ?_
  · intro c narrow
    unfold IsWide at narrow
    have same : (c == ' ') = (c.toNat == 0x20) := by
      by_cases space : c = ' '
      · subst space
        rfl
      · have differs : c.toNat ≠ 0x20 := fun eq => space (Char.toNat_inj.mp eq)
        simp [space, differs]
    unfold isBlank isTagBlank
    rw [same, Bool.eq_iff_iff]
    simp only [Bool.or_eq_true, Bool.and_eq_true, decide_eq_true_eq, beq_iff_eq]
    omega
  · intro c wide
    unfold IsWide at wide
    have space : ¬ c = ' ' := ne_of_wide wide (by decide)
    unfold isTagBlank
    rw [Bool.eq_false_iff]
    simp only [ne_eq, Bool.or_eq_true, Bool.and_eq_true, decide_eq_true_eq, beq_iff_eq, space,
      false_or]
    omega
  · intro c large small
    unfold isBlank
    rw [Bool.eq_false_iff]
    simp only [ne_eq, Bool.or_eq_true, Bool.and_eq_true, decide_eq_true_eq, beq_iff_eq]
    omega

theorem agrees_ne {mark : Char} (narrow : ¬ IsWide mark) :
    Agrees (fun c => decide (c ≠ mark)) fun c => decide (c ≠ mark) :=
  agrees_of_wide fun _ wide => decide_eq_true (ne_of_wide wide narrow)

theorem agrees_plainValue : Agrees (fun c => !endsPlainValue c) fun c => !endsPlainValue c := by
  refine agrees_of_wide fun c wide => ?_
  simp (disch := decide) only [endsPlainValue, isAsciiBlank, beq_of_wide wide, Bool.or_false,
    Bool.not_false]

/-! ## Names of attributes and starts of tags -/

theorem attributeName_wide {bytes : List Char} (wide : ∀ c ∈ bytes, IsWide c) (depth : Int)
    (rest : List Char) :
    (attributeName depth (bytes ++ rest)).1 = bytes ++ (attributeName depth rest).1 := by
  induction bytes with
  | nil => rfl
  | cons c bytes ih =>
    obtain ⟨here, others⟩ := List.forall_mem_cons.mp wide
    rw [List.cons_append, attributeName]
    simp only [if_neg (show ¬ c = '[' from ne_of_wide here (by decide)),
      if_neg (show ¬ c = ']' from ne_of_wide here (by decide)), isAttributeNameChar_of_wide here, or_true,
      if_true]
    rw [ih others, List.cons_append]

theorem attributeName_encoded (depth : Int) (rest : List Char) :
    (attributeName depth (encoded rest)).1 = encoded (attributeName depth rest).1 := by
  induction rest generalizing depth with
  | nil => rfl
  | cons c rest ih =>
    by_cases wide : IsWide c
    · rw [encoded_cons, attributeName_wide (encodedChar_wide wide), ih, attributeName]
      simp only [if_neg (show ¬ c = '[' from ne_of_wide wide (by decide)),
        if_neg (show ¬ c = ']' from ne_of_wide wide (by decide)), isAttributeNameChar_of_wide wide, or_true,
        if_true]
      rw [encoded_cons]
    · rw [encoded_cons_narrow wide, attributeName, attributeName]
      simp only
      generalize (if c = '[' then depth + 1 else if c = ']' then depth - 1 else depth) = inside
      split
      · rw [ih, encoded_cons_narrow wide]
      · rfl

theorem opensTag_cons_ne {c : Char} (differs : c ≠ '<') (rest : List Char) :
    opensTag (c :: rest) = false := by
  unfold opensTag
  split
  · next same => exact absurd (List.cons.inj same).1 differs
  · next same => exact absurd (List.cons.inj same).1 differs
  · rfl

theorem opensTag_cons_cons {c : Char} (differs : c ≠ '/') (rest : List Char) :
    opensTag ('<' :: c :: rest) = (isAsciiLetter c || c == '!') := by
  unfold opensTag
  split
  · next same => exact absurd (List.cons.inj (List.cons.inj same).2).1 differs
  · next same =>
    obtain ⟨rfl, _⟩ := List.cons.inj (List.cons.inj same).2
    rfl
  · next other => exact absurd rfl (other c rest)

theorem opensTag_encoded (rest : List Char) : opensTag (encoded rest) = opensTag rest := by
  -- A wide character opens no tag, and is no letter behind the mark that opens one.
  have letter (c : Char) (others : List Char) : ∃ byte behind, encoded (c :: others) = byte :: behind ∧
      isAsciiLetter byte = isAsciiLetter c ∧ (byte == '!') = (c == '!') ∧ (byte = '/' ↔ c = '/') := by
    by_cases wide : IsWide c
    · obtain ⟨first, tail, same, ⟨large, _⟩, _⟩ := encodedChar_of_wide wide
      have isWide : IsWide first := Nat.le_trans (by decide) large
      refine ⟨first, tail ++ encoded others, by rw [encoded_cons, same, List.cons_append], ?_, ?_, ?_⟩
      · rw [isAsciiLetter_of_large isWide, isAsciiLetter_of_large wide]
      · rw [beq_of_wide isWide (by decide), beq_of_wide wide (by decide)]
      · exact iff_of_false (ne_of_wide isWide (by decide)) (ne_of_wide wide (by decide))
    · exact ⟨c, encoded others, encoded_cons_narrow wide others, rfl, rfl, Iff.rfl⟩
  cases rest with
  | nil => rfl
  | cons c rest =>
    by_cases opens : c = '<'
    · subst opens
      rw [encoded_cons_narrow (by decide)]
      cases rest with
      | nil => rfl
      | cons d rest =>
        by_cases ends : d = '/'
        · subst ends
          rw [encoded_cons_narrow (by decide)]
          cases rest with
          | nil => rfl
          | cons e rest =>
            obtain ⟨byte, behind, same, isLetter, _, _⟩ := letter e rest
            rw [same]
            exact isLetter
        · obtain ⟨byte, behind, same, isLetter, isMark, isSlash⟩ := letter d rest
          rw [same, opensTag_cons_cons fun eq => ends (isSlash.mp eq), opensTag_cons_cons ends,
            isLetter, isMark]
    · obtain ⟨byte, others, same, marks⟩ := head_encoded c rest
      rw [same, opensTag_cons_ne opens, opensTag_cons_ne fun eq => opens ((marks '<' (by decide)).mp eq)]

theorem beforeTag_wide {bytes : List Char} (wide : ∀ c ∈ bytes, IsWide c) (rest : List Char) :
    (beforeTag (bytes ++ rest)).1 = bytes ++ (beforeTag rest).1 := by
  induction bytes with
  | nil => rfl
  | cons c bytes ih =>
    obtain ⟨here, others⟩ := List.forall_mem_cons.mp wide
    rw [List.cons_append, beforeTag, opensTag_cons_ne (ne_of_wide here (by decide))]
    simp only [Bool.false_eq_true, if_false]
    rw [ih others, List.cons_append]

theorem beforeTag_encoded (rest : List Char) :
    (beforeTag (encoded rest)).1 = encoded (beforeTag rest).1 := by
  induction rest with
  | nil => rfl
  | cons c rest ih =>
    by_cases wide : IsWide c
    · rw [encoded_cons, beforeTag_wide (encodedChar_wide wide), ih, beforeTag,
        opensTag_cons_ne (ne_of_wide wide (by decide))]
      simp only [Bool.false_eq_true, if_false]
      rw [encoded_cons]
    · have same := opensTag_encoded (c :: rest)
      rw [encoded_cons_narrow wide] at same ⊢
      rw [beforeTag, beforeTag, same]
      split
      · rfl
      · simp only
        rw [ih, encoded_cons_narrow wide]

end ByteScan
end Templating.Markup
