import Templating.Proofs.Markup.Escape
import Templating.Proofs.Markup.Scan
import Templating.Proofs.Text.Search
/-!
# Markup that is written is scanned

What trees are written as is cut into the tags, texts and comments that it was
written from, whatever follows.
-/
set_option autoImplicit false

namespace Templating.Markup

open Templating.Text Templating.Tree

/-! ## Names -/

/-- A name of a tag: a letter, and then what names are made of. -/
def IsTagText (tag : String) : Prop :=
  ∃ first rest, tag.toList = first :: rest ∧ isAsciiLetter first = true ∧
    ∀ c ∈ rest, isTagNameChar c = true

instance (tag : String) : Decidable (IsTagText tag) :=
  match begins : tag.toList with
  | [] => .isFalse fun ⟨_, _, same, _⟩ => by rw [begins] at same; cases same
  | first :: rest =>
    decidable_of_iff (isAsciiLetter first = true ∧ rest.all isTagNameChar = true)
      ⟨fun both => ⟨first, rest, begins, both.1, List.all_eq_true.mp both.2⟩,
        fun ⟨_, _, same, letter, others⟩ => by
          rw [begins] at same
          cases same
          exact ⟨letter, List.all_eq_true.mpr others⟩⟩

def isPlainNameChar (c : Char) : Bool := isAsciiWord c || c == '-' || c == '_'

theorem IsTagText.letters {tag : String} (named : IsTagText tag) :
    ∀ c ∈ tag.toList, isTagNameChar c = true := by
  obtain ⟨first, rest, same, letter, others⟩ := named
  rw [same]
  exact List.forall_mem_cons.mpr ⟨isTagNameChar_of_letter letter, others⟩

theorem isPlainNameChar_mark {c : Char} (plain : isPlainNameChar c = true) :
    isAttributeNameChar c = true ∧ c ≠ '[' ∧ c ≠ ']' := by
  refine ⟨?_, ?_, ?_⟩
  · by_contra mark
    simp only [isAttributeNameChar, isAsciiBlank, Bool.not_eq_true, Bool.not_eq_false', Bool.or_eq_true,
      beq_iff_eq] at mark
    rcases mark with ((((((((((rfl | rfl) | rfl) | rfl) | rfl) | rfl) | rfl) | rfl) | rfl) | rfl) | rfl) <;>
      exact absurd plain (by decide)
  · rintro rfl
    exact absurd plain (by decide)
  · rintro rfl
    exact absurd plain (by decide)

/-! ## Pieces of a tag -/

theorem takeWhile_append_stop {α : Type} {accepts : α → Bool} {front : List α} {stop : α}
    (all : ∀ c ∈ front, accepts c = true) (stops : accepts stop = false) (rest : List α) :
    (front ++ stop :: rest).takeWhile accepts = front ∧
      (front ++ stop :: rest).dropWhile accepts = stop :: rest := by
  induction front with
  | nil => simp [stops]
  | cons c others ih =>
    obtain ⟨first, behind⟩ := List.forall_mem_cons.mp all
    simp [first, ih behind]

theorem attributeName_written {name : List Char} (plain : ∀ c ∈ name, isPlainNameChar c = true)
    (rest : List Char) : attributeName 0 (name ++ '=' :: rest) = (name, '=' :: rest) := by
  induction name with
  | nil => rfl
  | cons c others ih =>
    obtain ⟨first, behind⟩ := List.forall_mem_cons.mp plain
    obtain ⟨accepted, noOpening, noClosing⟩ := isPlainNameChar_mark first
    rw [List.cons_append, attributeName]
    simp only [noOpening, noClosing, if_false, accepted, or_true, if_true, ih behind]

theorem attributeValue_written {value : List Char} (unquoted : ∀ c ∈ value, c ≠ '\x22')
    (rest : List Char) (offset : Nat) :
    attributeValue ⟨'\x22' :: (value ++ '\x22' :: rest), offset⟩ =
      (some (String.ofList value), ⟨rest, offset + byteLength ('\x22' :: value ++ ['\x22'])⟩) := by
  have all : ∀ c ∈ value, decide (c ≠ '\x22') = true := fun c held => decide_eq_true (unquoted c held)
  have cut : (value ++ '\x22' :: rest).takeWhile (fun c => decide (c ≠ '\x22')) = value :=
    (takeWhile_append_stop all rfl rest).1
  simp only [attributeValue, if_true, true_or, cut, List.drop_left]
  rfl

/-- The characters of `name="value"` with a space in front. -/
def attributeChars (pair : String × String) : List Char :=
  ' ' :: (pair.1.toList ++ '=' :: '\x22' :: (pair.2.toList.flatMap (escapeChar true) ++ ['\x22']))

theorem attributeMarkup_toList (pair : String × String) :
    (attributeMarkup pair).toList = attributeChars pair := by
  simp [attributeMarkup, attributeChars, escape]

theorem skipBlanks_eq {c : Char} (visible : isTagBlank c = false) (rest : List Char) (offset : Nat) :
    Cursor.skipBlanks ⟨c :: rest, offset⟩ = ⟨c :: rest, offset⟩ := by
  simp [Cursor.skipBlanks, Cursor.skipWhile, Cursor.advance, visible, byteLength]

theorem skipBlanks_space {c : Char} (visible : isTagBlank c = false) (rest : List Char)
    (offset : Nat) : Cursor.skipBlanks ⟨' ' :: c :: rest, offset⟩ = ⟨c :: rest, offset + 1⟩ := by
  have blank : isTagBlank ' ' = true := by decide
  simp [Cursor.skipBlanks, Cursor.skipWhile, Cursor.advance, visible, blank, byteLength]
  rfl

/-- The source attribute says what the pair does, with its value escaped. -/
def IsWritten (item : SourceAttribute) (pair : String × String) : Prop :=
  item.name = pair.1 ∧ item.value = some (escape true pair.2)

theorem scanAttribute_written {pair : String × String} {first : Char} {others : List Char}
    (begins : pair.1.toList = first :: others)
    (plain : ∀ c ∈ pair.1.toList, isPlainNameChar c = true) (rest : List Char) (offset : Nat) :
    ∃ item after, IsWritten item pair ∧
      scanAttribute? ⟨pair.1.toList ++ '=' :: '\x22' ::
          (pair.2.toList.flatMap (escapeChar true) ++ '\x22' :: rest), offset⟩ =
        some (item, ⟨rest, after⟩) := by
  have named := attributeName_written plain
    ('\x22' :: (pair.2.toList.flatMap (escapeChar true) ++ '\x22' :: rest))
  have nonempty : pair.1.toList.isEmpty = false := by rw [begins]; rfl
  have equals : isTagBlank '=' = false := by decide
  have opening : isTagBlank '\x22' = false := by decide
  have unquoted : ∀ c ∈ pair.2.toList.flatMap (escapeChar true), c ≠ '\x22' :=
    fun c held => ne_quote_of_mem_escape held
  have value := attributeValue_written unquoted rest (offset + byteLength pair.1.toList + byteLength ['='])
  generalize offset + byteLength pair.1.toList + byteLength ['='] +
    byteLength ('\x22' :: pair.2.toList.flatMap (escapeChar true) ++ ['\x22']) = stop at value
  refine ⟨⟨pair.1, some (escape true pair.2), ⟨offset, stop⟩⟩, stop, ⟨rfl, rfl⟩, ?_⟩
  simp only [scanAttribute?, named, nonempty, Bool.false_eq_true, if_false, Cursor.advance,
    skipBlanks_eq equals, List.head?_cons, if_true, Cursor.next, List.drop_succ_cons, List.drop_zero,
    List.take_succ_cons, List.take_zero, skipBlanks_eq opening, value, String.ofList_toList]
  rfl

def IsPlainText (name : String) : Prop := name ≠ "" ∧ ∀ c ∈ name.toList, isPlainNameChar c = true

theorem isPlainNameChar_visible {c : Char} (plain : isPlainNameChar c = true) :
    isTagBlank c = false ∧ c ≠ '>' ∧ c ≠ '/' := by
  refine ⟨?_, ?_, ?_⟩
  · by_contra blank
    simp only [isTagBlank, Bool.not_eq_false, Bool.or_eq_true, beq_iff_eq, Bool.and_eq_true,
      decide_eq_true_eq] at blank
    rcases blank with rfl | ⟨least, most⟩
    · exact absurd plain (by decide)
    · have same : c = Char.ofNat c.toNat := (Char.ofNat_toNat c).symm
      have cases : c.toNat = 9 ∨ c.toNat = 10 ∨ c.toNat = 11 ∨ c.toNat = 12 ∨ c.toNat = 13 := by
        omega
      rcases cases with value | value | value | value | value <;> rw [value] at same <;>
        exact absurd (same ▸ plain) (by decide)
  · rintro rfl
    exact absurd plain (by decide)
  · rintro rfl
    exact absurd plain (by decide)

theorem scanAttributes_step {c : Char} (plain : isPlainNameChar c = true) {rest : List Char}
    {offset : Nat} {item : SourceAttribute} {behind : Cursor}
    (scanned : scanAttribute? ⟨c :: rest, offset + 1⟩ = some (item, behind)) (fuel : Nat) :
    scanAttributes (fuel + 1) ⟨' ' :: c :: rest, offset⟩ =
      (scanAttributes fuel behind).map fun (others, selfClosing, after) =>
        (item :: others, selfClosing, after) := by
  obtain ⟨visible, noClose, noSlash⟩ := isPlainNameChar_visible plain
  rw [scanAttributes, skipBlanks_space visible]
  simp only
  split
  · next none => cases none
  · next closes => exact absurd (List.cons.inj closes).1 noClose
  · next closes => exact absurd (List.cons.inj closes).1 noSlash
  · next slash => exact absurd (List.cons.inj slash).1 noSlash
  · rw [scanned]

theorem scanAttributes_written {pairs : List (String × String)}
    (plain : ∀ pair ∈ pairs, IsPlainText pair.1) (rest : List Char) {fuel : Nat}
    (enough : pairs.length < fuel) (offset : Nat) :
    ∃ items after, List.Forall₂ IsWritten items pairs ∧
      scanAttributes fuel ⟨pairs.flatMap attributeChars ++ '>' :: rest, offset⟩ =
        some (items, false, ⟨rest, after⟩) := by
  induction pairs generalizing fuel offset with
  | nil =>
    obtain ⟨fuel, rfl⟩ := Nat.exists_eq_succ_of_ne_zero (Nat.ne_of_gt enough)
    have visible : isTagBlank '>' = false := by decide
    refine ⟨[], offset + 1, .nil, ?_⟩
    rw [List.flatMap_nil, List.nil_append, scanAttributes, skipBlanks_eq visible]
    rfl
  | cons pair others ih =>
    obtain ⟨fuel, rfl⟩ := Nat.exists_eq_succ_of_ne_zero (Nat.ne_zero_of_lt enough)
    obtain ⟨⟨nonempty, letters⟩, plainOthers⟩ := List.forall_mem_cons.mp plain
    obtain ⟨c, name, begins⟩ := List.exists_cons_of_ne_nil
      (fun none => nonempty (String.toList_eq_nil_iff.mp none))
    obtain ⟨item, between, written, scanned⟩ := scanAttribute_written begins letters
      (others.flatMap attributeChars ++ '>' :: rest) (offset + 1)
    obtain ⟨items, after, behind, run⟩ := ih plainOthers (Nat.lt_of_succ_lt_succ enough) between
    refine ⟨item :: items, after, .cons written behind, ?_⟩
    have chars : (pair :: others).flatMap attributeChars ++ '>' :: rest =
        ' ' :: (pair.1.toList ++ '=' :: '\x22' :: (pair.2.toList.flatMap (escapeChar true) ++
          '\x22' :: (others.flatMap attributeChars ++ '>' :: rest))) := by
      simp [attributeChars]
    rw [chars]
    rw [begins] at scanned letters ⊢
    rw [List.cons_append] at scanned ⊢
    rw [scanAttributes_step (letters c List.mem_cons_self) scanned, run]
    rfl

/-! ## Tags, texts and comments -/

def startTagChars (tag : String) (pairs : List (String × String)) : List Char :=
  '<' :: (tag.toList ++ (pairs.flatMap attributeChars ++ ['>']))

theorem startTag_toList (tag : String) (props : Props) :
    (startTag tag props).toList = startTagChars tag props.attributes := by
  have joined (pairs : List (String × String)) :
      (String.join (pairs.map attributeMarkup)).toList = pairs.flatMap attributeChars := by
    induction pairs with
    | nil => rfl
    | cons pair others ih =>
      rw [List.map_cons, String.join_cons, String.toList_append, ih, attributeMarkup_toList,
        List.flatMap_cons]
  simp [startTag, startTagChars, joined]

theorem stop_of_attributes (pairs : List (String × String)) (rest : List Char) :
    ∃ stop more, pairs.flatMap attributeChars ++ '>' :: rest = stop :: more ∧
      isTagNameChar stop = false := by
  cases pairs with
  | nil => exact ⟨'>', rest, rfl, by decide⟩
  | cons pair others => exact ⟨' ', _, rfl, by decide⟩

theorem letter_ne_mark {c : Char} (letter : isAsciiLetter c = true) : c ≠ '!' ∧ c ≠ '/' := by
  constructor <;> rintro rfl <;> exact absurd letter (by decide)

theorem length_attributeChars (pairs : List (String × String)) :
    pairs.length ≤ (pairs.flatMap attributeChars).length := by
  induction pairs with
  | nil => exact Nat.zero_le _
  | cons pair others ih =>
    rw [List.flatMap_cons, List.length_append, List.length_cons]
    have one : 1 ≤ (attributeChars pair).length := by simp [attributeChars]
    omega

theorem scanStartTag_written {tag : String} (named : IsTagText tag) {pairs : List (String × String)}
    (plain : ∀ pair ∈ pairs, IsPlainText pair.1) (rest : List Char) (offset : Nat) :
    ∃ items span after, List.Forall₂ IsWritten items pairs ∧
      scanStartTag ⟨startTagChars tag pairs ++ rest, offset⟩ =
        (.startTag tag items false span, ⟨rest, after⟩) := by
  obtain ⟨stop, more, behind, stops⟩ := stop_of_attributes pairs rest
  obtain ⟨name, others⟩ := takeWhile_append_stop named.letters stops more
  have enough : pairs.length < (pairs.flatMap attributeChars ++ '>' :: rest).length + 1 := by
    have counted := length_attributeChars pairs
    rw [List.length_append]
    omega
  obtain ⟨items, after, written, run⟩ := scanAttributes_written plain rest enough
    (offset + byteLength ['<'] + byteLength tag.toList)
  refine ⟨items, ⟨offset, after⟩, after, written, ?_⟩
  have chars : startTagChars tag pairs ++ rest = '<' :: (tag.toList ++ (stop :: more)) := by
    simp [startTagChars, ← behind]
  rw [behind] at run
  simp only [scanStartTag, chars, Cursor.next, Cursor.skipWhile, Cursor.advance, List.take_succ_cons,
    List.take_zero, List.drop_succ_cons, List.drop_zero, name, others, run, String.ofList_toList]

theorem opensTag_letter {c : Char} (letter : isAsciiLetter c = true) (rest : List Char) :
    opensTag ('<' :: c :: rest) = true := by
  obtain ⟨-, noSlash⟩ := letter_ne_mark letter
  unfold opensTag
  split
  · next slash => exact absurd (List.cons.inj (List.cons.inj slash).2).1 noSlash
  · next same =>
    rw [← (List.cons.inj (List.cons.inj same).2).1, letter]
    rfl
  · next other => exact absurd rfl (other c rest)

theorem scanStep_letter {c : Char} (letter : isAsciiLetter c = true) (rest : List Char)
    (offset : Nat) : scanStep ⟨'<' :: c :: rest, offset⟩ =
      .ofPair (scanStartTag ⟨'<' :: c :: rest, offset⟩) := by
  obtain ⟨noMark, noSlash⟩ := letter_ne_mark letter
  simp [scanStep, opensTag_letter letter, startsWith, dropLeading?, Ne.symm noMark, Ne.symm noSlash]

theorem scanStep_slash {c : Char} (letter : isAsciiLetter c = true) (rest : List Char)
    (offset : Nat) : scanStep ⟨'<' :: '/' :: c :: rest, offset⟩ =
      .ofPair (scanEndTag ⟨'<' :: '/' :: c :: rest, offset⟩) := by
  simp [scanStep, opensTag, letter, startsWith, dropLeading?]

theorem scanStep_startTag {tag : String} (named : IsTagText tag) {pairs : List (String × String)}
    (plain : ∀ pair ∈ pairs, IsPlainText pair.1) (rest : List Char) (offset : Nat) :
    ∃ items span after, List.Forall₂ IsWritten items pairs ∧
      scanStep ⟨startTagChars tag pairs ++ rest, offset⟩ =
        .emitted (.startTag tag items false span) ⟨rest, after⟩ := by
  obtain ⟨items, span, after, written, run⟩ := scanStartTag_written named plain rest offset
  refine ⟨items, span, after, written, ?_⟩
  obtain ⟨c, others, begins, letter, -⟩ := named
  have opens : startTagChars tag pairs ++ rest =
      '<' :: c :: (others ++ (pairs.flatMap attributeChars ++ ['>']) ++ rest) := by
    simp [startTagChars, begins]
  rw [opens] at run ⊢
  rw [scanStep_letter letter, run]
  rfl

def endTagChars (tag : String) : List Char := '<' :: '/' :: (tag.toList ++ ['>'])

theorem scanEndTag_written {tag : String} (named : IsTagText tag) (rest : List Char) (offset : Nat) :
    ∃ span after, scanEndTag ⟨'<' :: '/' :: (tag.toList ++ '>' :: rest), offset⟩ =
      (.endTag tag span, ⟨rest, after⟩) := by
  have stops : isTagNameChar '>' = false := by decide
  obtain ⟨name, others⟩ := takeWhile_append_stop named.letters stops rest
  simp only [scanEndTag, Cursor.next, Cursor.skipWhile, Cursor.advance, List.drop_succ_cons,
    List.drop_zero, name, others, String.ofList_toList]
  exact ⟨_, _, rfl⟩

theorem scanStep_endTag {tag : String} (named : IsTagText tag) (rest : List Char) (offset : Nat) :
    ∃ span after, scanStep ⟨endTagChars tag ++ rest, offset⟩ =
      .emitted (.endTag tag span) ⟨rest, after⟩ := by
  obtain ⟨span, after, run⟩ := scanEndTag_written named rest offset
  refine ⟨span, after, ?_⟩
  have chars : endTagChars tag ++ rest = '<' :: '/' :: (tag.toList ++ '>' :: rest) := by
    simp [endTagChars]
  obtain ⟨c, letters, begins, letter, -⟩ := named
  rw [chars]
  rw [begins, List.cons_append] at run ⊢
  rw [scanStep_slash letter, run]
  rfl

/-! ### Texts -/

theorem opensTag_plain {c : Char} (plain : c ≠ '<') (rest : List Char) :
    opensTag (c :: rest) = false := by
  unfold opensTag
  split
  · next same => exact absurd (List.cons.inj same).1 plain
  · next same => exact absurd (List.cons.inj same).1 plain
  · rfl

theorem beforeTag_written {content rest : List Char} (plain : ∀ c ∈ content, c ≠ '<')
    (opens : opensTag rest = true) : beforeTag (content ++ rest) = (content, rest) := by
  induction content with
  | nil =>
    cases rest with
    | nil => rfl
    | cons c others => rw [List.nil_append, beforeTag, if_pos opens]
  | cons c others ih =>
    obtain ⟨first, behind⟩ := List.forall_mem_cons.mp plain
    rw [List.cons_append, beforeTag, opensTag_plain first, if_neg (by simp), ih behind]

theorem scanStep_text {content rest : List Char} (nonempty : content ≠ [])
    (plain : ∀ c ∈ content, c ≠ '<') (opens : opensTag rest = true) (offset : Nat) :
    ∃ span after, scanStep ⟨content ++ rest, offset⟩ =
      .emitted (.text (String.ofList content) span) ⟨rest, after⟩ := by
  obtain ⟨c, others, rfl⟩ := List.exists_cons_of_ne_nil nonempty
  obtain ⟨first, behind⟩ := List.forall_mem_cons.mp plain
  rw [List.cons_append]
  simp only [scanStep, opensTag_plain first, Bool.not_false, if_true, scanText, List.drop_succ_cons, List.drop_zero,
    beforeTag_written behind opens, List.take_succ_cons, List.take_zero, List.singleton_append]
  exact ⟨_, _, rfl⟩

/-! ### Comments -/

theorem dropLeading_commentEnd {c : Char} {others : List Char}
    (closed : dropLeading? ['-', '-', '>'] (c :: others) = none) (rest : List Char) :
    dropLeading? ['-', '-', '>'] (c :: (others ++ '-' :: '-' :: '>' :: rest)) = none := by
  by_contra found
  obtain ⟨after, found⟩ := Option.ne_none_iff_exists'.mp found
  have same := (dropLeading_eq_some_iff _ _ _).mp found
  rcases others with _ | ⟨d, _ | ⟨e, others⟩⟩
  · simp at same
  · simp at same
  · simp only [List.cons_append, List.nil_append, List.cons.injEq] at same
    obtain ⟨rfl, rfl, rfl, -⟩ := same
    simp [dropLeading?] at closed

theorem breakAt_commentEnd {content : List Char} (closed : contains ['-', '-', '>'] content = false)
    (rest : List Char) :
    breakAt? ['-', '-', '>'] (content ++ '-' :: '-' :: '>' :: rest) = some (content, rest) := by
  induction content with
  | nil => simp [breakAt?, dropLeading?]
  | cons c others ih =>
    rw [contains, breakAt?] at closed
    cases front : dropLeading? ['-', '-', '>'] (c :: others) with
    | some after =>
      rw [front] at closed
      cases closed
    | none =>
      rw [front] at closed
      rw [List.cons_append, breakAt?, dropLeading_commentEnd front, ih (by simpa [contains] using closed)]
      rfl

def commentChars (content : String) : List Char :=
  '<' :: '!' :: '-' :: '-' :: (content.toList ++ ['-', '-', '>'])

theorem scanStep_comment {content : String} (closed : contains ['-', '-', '>'] content.toList = false)
    (rest : List Char) (offset : Nat) :
    ∃ span after, scanStep ⟨commentChars content ++ rest, offset⟩ =
      .emitted (.comment content span) ⟨rest, after⟩ := by
  have cut := breakAt_commentEnd closed rest
  have chars : commentChars content ++ rest =
      '<' :: '!' :: '-' :: '-' :: (content.toList ++ '-' :: '-' :: '>' :: rest) := by
    simp [commentChars]
  rw [chars]
  simp only [scanStep, opensTag, startsWith, dropLeading?, if_true, Option.isSome_some, scanComment,
    List.drop_succ_cons, List.drop_zero, cut, String.ofList_toList]
  exact ⟨_, _, rfl⟩

end Templating.Markup
