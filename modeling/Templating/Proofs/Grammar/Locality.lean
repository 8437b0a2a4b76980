import Mathlib.Tactic.Tauto
import Templating.Proofs.Grammar.Depth
/-!
# Reading does not look past a balanced source

What a reader makes of a balanced source is the same with a comma or a closing
bracket behind it, whatever follows: the source and the longer source are a
pairing.  So an expression that is written into other source is read there as it
is read alone.
-/
set_option autoImplicit false

namespace Templating.Expression.Grammar

open Templating.Text

variable {α : Type}

def isTail : List Char → Bool
  | [] => true
  | c :: _ => endsListener c

theorem isTail_cons {c : Char} (ends : endsListener c = true) (rest : List Char) :
    isTail (c :: rest) = true := ends

/-! ## Characters before a tail -/

section Characters

variable {tail : List Char} (isLast : isTail tail = true)

include isLast

theorem takeWhile_append_tail {accepts : Char → Bool}
    (stops : ∀ c, endsListener c = true → accepts c = false) (source : List Char) :
    (source ++ tail).takeWhile accepts = source.takeWhile accepts := by
  induction source with
  | nil =>
    cases tail with
    | nil => rfl
    | cons c rest => exact List.takeWhile_cons_of_neg (by simp [stops c isLast])
  | cons c rest ih =>
    by_cases taken : accepts c = true
    · simp [taken, ih]
    · simp [taken]

theorem dropWhile_append_tail {accepts : Char → Bool}
    (stops : ∀ c, endsListener c = true → accepts c = false) (source : List Char) :
    (source ++ tail).dropWhile accepts = source.dropWhile accepts ++ tail := by
  induction source with
  | nil =>
    cases tail with
    | nil => rfl
    | cons c rest => exact List.dropWhile_cons_of_neg (by simp [stops c isLast])
  | cons c rest ih =>
    by_cases taken : accepts c = true
    · simp [taken, ih]
    · simp [taken]

theorem dropLeading_append_tail {pattern : List Char}
    (stops : ∀ c ∈ pattern, endsListener c = false) (source : List Char) :
    dropLeading? pattern (source ++ tail) =
      (dropLeading? pattern source).map fun rest => rest ++ tail := by
  induction pattern generalizing source with
  | nil => rfl
  | cons p pattern ih =>
    have others := fun c held => stops c (List.mem_cons_of_mem p held)
    cases source with
    | nil =>
      cases tail with
      | nil => rfl
      | cons c rest =>
        have differs : p ≠ c := by
          rintro rfl
          exact absurd isLast (by simp [isTail, stops p List.mem_cons_self])
        simp [dropLeading?, differs]
    | cons c rest =>
      by_cases same : p = c
      · simpa [dropLeading?, same] using ih others rest
      · simp [dropLeading?, same]

end Characters

theorem endsListener_cases {c : Char} (ends : endsListener c = true) :
    c = ',' ∨ c = ')' ∨ c = ']' ∨ c = '\x7d' := by
  simpa [endsListener, endsNested, or_assoc] using ends

theorem isSeparatingBlank_of_ends {c : Char} (ends : endsListener c = true) :
    isSeparatingBlank c = false := by
  rcases endsListener_cases ends with rfl | rfl | rfl | rfl <;> rfl

theorem isNameChar_of_ends {c : Char} (ends : endsListener c = true) : isNameChar c = false := by
  rcases endsListener_cases ends with rfl | rfl | rfl | rfl <;> rfl

theorem isAsciiDigit_of_ends {c : Char} (ends : endsListener c = true) : isAsciiDigit c = false := by
  rcases endsListener_cases ends with rfl | rfl | rfl | rfl <;> rfl

theorem isSeparatingBlank_cases {c : Char} (blank : isSeparatingBlank c = true) :
    c = ' ' ∨ c = '\t' ∨ c = '\r' ∨ c = '\n' := by
  simpa [isSeparatingBlank, or_assoc] using blank

theorem isPlain_of_isSeparatingBlank {c : Char} (blank : isSeparatingBlank c = true) :
    isPlain c = true := by
  rcases isSeparatingBlank_cases blank with rfl | rfl | rfl | rfl <;> rfl

theorem closes_skipBlanks_iff (expected source : List Char) :
    Closes expected (skipBlanks source) ↔ Closes expected source := by
  conv_rhs => rw [← List.takeWhile_append_dropWhile (p := isSeparatingBlank) (l := source)]
  exact (closes_plain_append_iff (fun c held =>
    isPlain_of_isSeparatingBlank (List.mem_takeWhile_imp held)) expected _).symm

/-! ## Reading before a tail -/

/-- The reader makes of `source` what it makes of it with `tail` behind it, and
leaves a source that closes `expected`. -/
structure ReadsBefore (tail expected source : List Char) (reader : Reader α) : Prop where
  append : reader (source ++ tail) = (reader source).map fun entry => (entry.1, entry.2 ++ tail)
  closes : ∀ result rest, reader source = some (result, rest) → Closes expected rest
  shorter : ∀ result rest, reader source = some (result, rest) → rest.length < source.length

structure MarksBefore (tail expected source : List Char) (mark : String) : Prop where
  append : mark? mark (source ++ tail) = (mark? mark source).map fun rest => rest ++ tail
  closes : ∀ rest, mark? mark source = some rest → Closes expected rest
  shorter : ∀ rest, mark? mark source = some rest → rest.length < source.length

/-- The longer source reads as the source alone. -/
def Before (tail expected left right : List Char) : Prop :=
  left = right ++ tail ∧ Closes expected right

theorem ReadsBefore.toMatch {tail expected source : List Char} {reader : Reader α}
    (reads : ReadsBefore tail expected source reader) :
    Match (Before tail expected) (source ++ tail) source (reader (source ++ tail))
      (reader source) := by
  rw [reads.append]
  cases found : reader source with
  | none => exact .none
  | some entry =>
    have less := reads.shorter entry.1 entry.2 found
    refine .some entry.1 (entry.2 ++ tail) entry.2 ⟨rfl, reads.closes entry.1 entry.2 found⟩ ?_ less
    simpa using less

theorem ReadsBefore.ofMatch {tail expected source : List Char} {reader : Reader α}
    (found : Match (Before tail expected) (source ++ tail) source (reader (source ++ tail))
      (reader source))
    (shorter : ∀ result rest, reader source = some (result, rest) → rest.length < source.length) :
    ReadsBefore tail expected source reader := by
  refine ⟨?_, fun result rest read => ?_, shorter⟩
  · generalize reader (source ++ tail) = longer, reader source = alone at found ⊢
    cases found with
    | none => rfl
    | some result leftRest rightRest related => rw [related.1]; rfl
  · rw [read] at found
    generalize reader (source ++ tail) = longer at found
    cases found with
    | some _ _ _ related => exact related.2

theorem MarksBefore.toMatch {tail expected source : List Char} {mark : String}
    (marks : MarksBefore tail expected source mark) :
    MarkMatch (Before tail expected) (source ++ tail) source (mark? mark (source ++ tail))
      (mark? mark source) := by
  rw [marks.append]
  cases found : mark? mark source with
  | none => exact .none
  | some rest =>
    have less := marks.shorter rest found
    refine .some (rest ++ tail) rest ⟨rfl, marks.closes rest found⟩ ?_ less
    simpa using less

theorem isPlain_of_isNameChar {c : Char} (named : isNameChar c = true) : isPlain c = true :=
  isPlain_of_class isNameChar (by decide) named

theorem isNameChar_of_isNameStart {c : Char} (start : isNameStart c = true) :
    isNameChar c = true := by
  simp only [isNameStart, isNameChar, isAsciiWord, Bool.or_eq_true] at start ⊢
  tauto

theorem isPlain_of_isAsciiDigit {c : Char} (digit : isAsciiDigit c = true) : isPlain c = true :=
  isPlain_of_class isAsciiDigit (by decide) digit

def isNumberChar (c : Char) : Bool := isAsciiDigit c || ['.', 'e', 'E', '+', '-'].contains c

theorem isNumberChar_of_isAsciiDigit {c : Char} (digit : isAsciiDigit c = true) :
    isNumberChar c = true := by
  rw [isNumberChar, digit, Bool.true_or]

theorem fraction_chars {source : List Char} : ∀ c ∈ (fraction source).1, isNumberChar c = true := by
  intro c held
  unfold fraction at held
  split at held
  · simp only at held
    split at held
    · cases held
    · rcases List.mem_cons.mp held with rfl | held
      · rfl
      · exact isNumberChar_of_isAsciiDigit (List.mem_takeWhile_imp held)
  · cases held

theorem exponent_chars {source : List Char} : ∀ c ∈ (exponent source).1, isNumberChar c = true := by
  intro c held
  unfold exponent at held
  split at held
  · next e rest =>
    split at held
    · next mark =>
      simp only at held
      split at held
      · cases held
      · simp only [List.cons_append, List.mem_cons, List.mem_append, List.mem_filter] at held
        rcases held with rfl | ⟨-, sign⟩ | digit
        · rcases mark with rfl | rfl <;> rfl
        · simp only [Bool.or_eq_true, beq_iff_eq] at sign
          rcases sign with rfl | rfl <;> rfl
        · exact isNumberChar_of_isAsciiDigit (List.mem_takeWhile_imp digit)
    · cases held
  · cases held

theorem numberText_chars {source digits rest : List Char}
    (found : numberText source = some (digits, rest)) : ∀ c ∈ digits, isNumberChar c = true := by
  unfold numberText at found
  simp only at found
  split at found
  · cases found
  · simp only [Option.some.injEq, Prod.mk.injEq] at found
    obtain ⟨rfl, -⟩ := found
    intro c held
    simp only [List.mem_append, or_assoc] at held
    rcases held with digit | held | held
    · exact isNumberChar_of_isAsciiDigit (List.mem_takeWhile_imp digit)
    · exact fraction_chars c held
    · exact exponent_chars c held

theorem numberText_plain {source digits rest : List Char}
    (found : numberText source = some (digits, rest)) : ∀ c ∈ digits, isPlain c = true :=
  fun c held => isPlain_of_class isNumberChar (by decide) (numberText_chars found c held)

theorem anyName_plain {source rest : List Char} {name : String}
    (found : anyName source = some (name, rest)) :
    ∃ taken, (∀ c ∈ taken, isPlain c = true) ∧ skipBlanks source = taken ++ rest := by
  obtain ⟨c, taken, start, named, -, split⟩ := anyName_eq_some found
  refine ⟨c :: taken, fun d held => ?_, split⟩
  rcases List.mem_cons.mp held with rfl | held
  · exact isPlain_of_isNameChar (isNameChar_of_isNameStart start)
  · exact isPlain_of_isNameChar (named d held)

theorem isInnerMark_plain {mark : String} (inner : isInnerMark mark = true) :
    ∀ c ∈ mark.toList, isPlain c = true := by
  simp only [isInnerMark, Bool.and_eq_true, List.all_eq_true] at inner
  exact fun c held => (inner.2 c held).1.1

section Tokens

variable {tail : List Char} (isLast : isTail tail = true) {expected source : List Char}

include isLast

theorem skipBlanks_append (source : List Char) :
    skipBlanks (source ++ tail) = skipBlanks source ++ tail :=
  dropWhile_append_tail isLast (fun _ ends => isSeparatingBlank_of_ends ends) source

theorem inner_before {mark : String} (inner : isInnerMark mark = true)
    (balanced : Closes expected source) : MarksBefore tail expected source mark := by
  have given := isInnerMark_ne_nil inner
  simp only [isInnerMark, Bool.and_eq_true, List.all_eq_true] at inner
  refine ⟨?_, fun rest found => ?_, fun rest found => mark_length_lt given found⟩
  · simp only [mark?, skipBlanks_append isLast]
    refine dropLeading_append_tail isLast (fun c held => ?_) _
    obtain ⟨⟨plain, noComma⟩, -⟩ := inner.2 c held
    simp only [isPlain, Bool.and_eq_true, Bool.not_eq_true'] at plain
    simpa [endsListener, plain.2] using noComma
  · rw [mark_eq_some_iff] at found
    rw [← closes_skipBlanks_iff, found,
      closes_plain_append_iff fun c held => (inner.2 c held).1.1] at balanced
    exact balanced

theorem opening_before {mark : String} {c closer : Char} (single : mark.toList = [c])
    (opening : closerOf? c = some closer) (balanced : Closes expected source) :
    MarksBefore tail (closer :: expected) source mark := by
  have noEnd : endsListener c = false := by
    by_contra ends
    rcases endsListener_cases (eq_true_of_ne_false ends) with rfl | rfl | rfl | rfl <;> cases opening
  refine ⟨?_, fun rest found => ?_, fun rest found => mark_length_lt (by simp [single]) found⟩
  · simp only [mark?, skipBlanks_append isLast, single]
    exact dropLeading_append_tail isLast (by simp [noEnd]) _
  · rw [mark_eq_some_iff, single] at found
    rw [← closes_skipBlanks_iff, found] at balanced
    exact (closes_opening_iff opening expected rest).mp balanced

omit isLast in
theorem single_append {c : Char} {source : List Char} (visible : source ≠ []) (tail : List Char) :
    dropLeading? [c] (source ++ tail) = (dropLeading? [c] source).map fun rest => rest ++ tail := by
  cases source with
  | nil => exact absurd rfl visible
  | cons d rest => by_cases same : c = d <;> simp [dropLeading?, same]

omit isLast in
theorem ne_nil_of_closes {closer : Char} (balanced : Closes (closer :: expected) source) :
    skipBlanks source ≠ [] := by
  intro none
  rw [← closes_skipBlanks_iff, none, closes_nil_iff] at balanced
  cases balanced

theorem closing_before {mark : String} {c : Char} (single : mark.toList = [c])
    (closer : endsNested c = true) (balanced : Closes (c :: expected) source) :
    MarksBefore tail expected source mark := by
  refine ⟨?_, fun rest found => ?_, fun rest found => mark_length_lt (by simp [single]) found⟩
  · simp only [mark?, skipBlanks_append isLast, single]
    exact single_append (ne_nil_of_closes balanced) tail
  · rw [mark_eq_some_iff, single] at found
    rw [← closes_skipBlanks_iff, found] at balanced
    obtain ⟨outer, same, closed⟩ := (closes_closer_iff closer _ rest).mp balanced
    cases same
    exact closed

theorem comma_before {closer : Char} (balanced : Closes (closer :: expected) source) :
    MarksBefore tail (closer :: expected) source "," := by
  refine ⟨?_, fun rest found => ?_, fun rest found => mark_length_lt (by decide) found⟩
  · simp only [mark?, skipBlanks_append isLast]
    exact single_append (ne_nil_of_closes balanced) tail
  · rw [mark_eq_some_iff] at found
    rw [← closes_skipBlanks_iff, found] at balanced
    exact (closes_plain_iff (c := ',') rfl (closer :: expected) rest).mp balanced

theorem name_before (balanced : Closes expected source) :
    ReadsBefore tail expected source anyName := by
  refine ⟨?_, fun name rest found => ?_, fun _ _ found => anyName_length_lt found⟩
  · unfold anyName
    rw [skipBlanks_append isLast]
    cases skipBlanks source with
    | nil =>
      cases tail with
      | nil => rfl
      | cons c rest =>
        have noStart : isNameStart c = false := by
          rcases endsListener_cases isLast with rfl | rfl | rfl | rfl <;> rfl
        simp [noStart]
    | cons c rest =>
      have stops := fun c ends => isNameChar_of_ends (c := c) ends
      by_cases start : isNameStart c = true
      · simp [start, takeWhile_append_tail isLast stops, dropWhile_append_tail isLast stops]
      · simp [start]
  · obtain ⟨taken, plain, split⟩ := anyName_plain found
    rw [← closes_skipBlanks_iff, split] at balanced
    exact (closes_plain_append_iff plain expected rest).mp balanced

omit isLast in
theorem textInside_end {quote : Char} (noEscape : quote ≠ '\\') (rest : List Char) :
    textInside quote (quote :: rest) = some ([], rest) := by
  simp [textInside, noEscape]

omit isLast in
theorem textInside_cons {c quote : Char} (inside : c ≠ quote) (noEscape : c ≠ '\\')
    (rest : List Char) :
    textInside quote (c :: rest) =
      (textInside quote rest).map fun found => (c :: found.1, found.2) := by
  simp [textInside, noEscape, inside]

omit isLast in
theorem textInside_append {quote : Char} (quoted : isQuote quote = true)
    (balanced : ClosesText quote expected source) (tail : List Char) :
    (textInside quote (source ++ tail) = (textInside quote source).map
      fun entry => (entry.1, entry.2 ++ tail)) ∧
      ∀ inside rest, textInside quote source = some (inside, rest) → Closes expected rest := by
  have noEscape := quote_ne_escape quoted
  fun_induction textInside quote source with
  | case1 => exact absurd balanced (not_closesText_nil quote expected)
  | case2 => exact absurd balanced (not_closesText_escape quote expected)
  | case3 c others ih =>
    obtain ⟨same, closes⟩ := ih ((closesText_escape_iff c quote expected others).mp balanced)
    refine ⟨?_, fun inside rest found => ?_⟩
    · rw [List.cons_append, List.cons_append, textInside, same, Option.map_map, Option.map_map]
      rfl
    · simp only [Option.map_eq_some_iff, Prod.mk.injEq] at found
      obtain ⟨entry, inner, -, rfl⟩ := found
      exact closes entry.1 entry.2 inner
  | case4 others =>
    refine ⟨?_, fun inside rest found => ?_⟩
    · rw [List.cons_append, textInside_end noEscape]
      rfl
    · simp only [Option.some.injEq, Prod.mk.injEq] at found
      obtain ⟨-, rfl⟩ := found
      exact (closesText_end_iff noEscape expected others).mp balanced
  | case5 c others noLone noPair differs ih =>
    have plain : c ≠ '\\' := by
      rintro rfl
      cases others with
      | nil => exact noLone rfl rfl
      | cons d others => exact noPair d others rfl rfl
    obtain ⟨same, closes⟩ := ih ((closesText_cons_iff differs plain expected others).mp balanced).2
    refine ⟨?_, fun inside rest found => ?_⟩
    · rw [List.cons_append, textInside_cons differs plain, same, Option.map_map, Option.map_map]
      rfl
    · simp only [Option.map_eq_some_iff, Prod.mk.injEq] at found
      obtain ⟨entry, inner, -, rfl⟩ := found
      exact closes entry.1 entry.2 inner

theorem text_before (balanced : Closes expected source) :
    ReadsBefore tail expected source textLiteral := by
  refine ⟨?_, fun content rest found => ?_, fun _ _ found => textLiteral_length_lt found⟩
  · unfold textLiteral
    rw [skipBlanks_append isLast]
    rw [← closes_skipBlanks_iff] at balanced
    generalize skipBlanks source = start at balanced ⊢
    cases start with
    | nil =>
      cases tail with
      | nil => rfl
      | cons c rest =>
        have noQuote : ¬ (c = '\x22' ∨ c = '\x27') := by
          rcases endsListener_cases isLast with rfl | rfl | rfl | rfl <;> decide
        simp [noQuote]
    | cons c rest =>
      by_cases quote : c = '\x22' ∨ c = '\x27'
      · have quoted : isQuote c = true := by rcases quote with rfl | rfl <;> rfl
        have inside := (textInside_append quoted
          ((closes_quote_iff quoted expected rest).mp balanced) tail).1
        simp [quote, inside, Function.comp_def]
      · simp [quote]
  · unfold textLiteral at found
    rw [← closes_skipBlanks_iff] at balanced
    generalize skipBlanks source = start at balanced found
    cases start with
    | nil => cases found
    | cons c others =>
      by_cases quote : c = '\x22' ∨ c = '\x27'
      · have quoted : isQuote c = true := by rcases quote with rfl | rfl <;> rfl
        simp only [quote, if_true, Option.map_eq_some_iff, Prod.mk.injEq] at found
        obtain ⟨entry, inner, -, rfl⟩ := found
        exact (textInside_append quoted
          ((closes_quote_iff quoted expected others).mp balanced) []).2 entry.1 entry.2 inner
      · simp [quote] at found

theorem fraction_append_tail (source : List Char) :
    fraction (source ++ tail) = ((fraction source).1, (fraction source).2 ++ tail) := by
  have stops := fun c ends => isAsciiDigit_of_ends (c := c) ends
  match source with
  | [] =>
    cases tail with
    | nil => rfl
    | cons c rest => rcases endsListener_cases isLast with rfl | rfl | rfl | rfl <;> rfl
  | c :: rest =>
    by_cases point : c = '.'
    · subst point
      simp only [fraction, List.cons_append, takeWhile_append_tail isLast stops,
        dropWhile_append_tail isLast stops]
      split <;> rfl
    · simp [fraction, point]

theorem exponent_append_tail (source : List Char) :
    exponent (source ++ tail) = ((exponent source).1, (exponent source).2 ++ tail) := by
  have stops := fun c ends => isAsciiDigit_of_ends (c := c) ends
  have unmarked : ∀ c rest, tail = c :: rest → isExponentMark c = false := by
    rintro c rest rfl
    rcases endsListener_cases isLast with rfl | rfl | rfl | rfl <;> rfl
  have unsigned : ∀ c rest, tail = c :: rest → isSign c = false := by
    rintro c rest rfl
    rcases endsListener_cases isLast with rfl | rfl | rfl | rfl <;> rfl
  match source with
  | [] => rw [List.nil_append, exponent_other unmarked]; rfl
  | e :: rest =>
    by_cases mark : isExponentMark e = true
    · match rest with
      | [] =>
        have noDigits : tail.takeWhile isAsciiDigit = [] := takeWhile_append_tail isLast stops []
        rw [List.singleton_append, exponent_unsigned mark unsigned, noDigits]
        simp [exponent]
      | sign :: behind =>
        by_cases signed : isSign sign = true
        · rw [List.cons_append, List.cons_append, exponent_signed mark signed,
            exponent_signed mark signed, takeWhile_append_tail isLast stops,
            dropWhile_append_tail isLast stops]
          split <;> rfl
        · have noSign : ∀ others c rest, sign :: others = c :: rest → isSign c = false := by
            rintro others c rest same
            obtain ⟨rfl, -⟩ := List.cons.inj same
            exact Bool.eq_false_iff.mpr signed
          rw [List.cons_append, List.cons_append, exponent_unsigned mark (noSign _),
            exponent_unsigned mark (noSign _), ← List.cons_append,
            takeWhile_append_tail isLast stops, dropWhile_append_tail isLast stops]
          split <;> rfl
    · have noMark : ∀ others c rest, e :: others = c :: rest → isExponentMark c = false := by
        rintro others c rest same
        obtain ⟨rfl, -⟩ := List.cons.inj same
        exact Bool.eq_false_iff.mpr mark
      rw [List.cons_append, exponent_other (noMark _), exponent_other (noMark _)]
      rfl

theorem number_before (balanced : Closes expected source) :
    ReadsBefore tail expected source numberText := by
  have stops := fun c ends => isAsciiDigit_of_ends (c := c) ends
  refine ⟨?_, fun digits rest found => ?_, fun _ _ found => numberText_length_lt found⟩
  · simp only [numberText, skipBlanks_append isLast, takeWhile_append_tail isLast stops,
      dropWhile_append_tail isLast stops, fraction_append_tail isLast,
      exponent_append_tail isLast]
    split <;> rfl
  · have plain := numberText_plain found
    obtain ⟨-, split⟩ := numberText_eq_some found
    rw [← closes_skipBlanks_iff, split] at balanced
    exact (closes_plain_append_iff plain expected rest).mp balanced

omit isLast in
theorem afterText_end {quote : Char} (noEscape : quote ≠ '\\') (rest : List Char) :
    afterText? quote (quote :: rest) = some rest := by
  simp [afterText?, noEscape]

omit isLast in
theorem afterText_cons {c quote : Char} (inside : c ≠ quote) (noEscape : c ≠ '\\')
    (rest : List Char) : afterText? quote (c :: rest) = afterText? quote rest := by
  simp [afterText?, noEscape, inside]

omit isLast in
theorem afterText_append {quote : Char} (quoted : isQuote quote = true)
    (balanced : ClosesText quote expected source) :
    ∃ rest, afterText? quote source = some rest ∧ Closes expected rest ∧
      rest.length < source.length ∧
      ∀ tail, afterText? quote (source ++ tail) = some (rest ++ tail) := by
  have noEscape := quote_ne_escape quoted
  fun_induction afterText? quote source with
  | case1 => exact absurd balanced (not_closesText_nil quote expected)
  | case2 c others ih =>
    obtain ⟨rest, found, closes, shorter, longer⟩ :=
      ih ((closesText_escape_iff c quote expected others).mp balanced)
    refine ⟨rest, found, closes, Nat.lt_succ_of_lt (Nat.lt_succ_of_lt shorter), fun tail => ?_⟩
    rw [List.cons_append, List.cons_append, afterText?, longer]
  | case3 others =>
    refine ⟨others, rfl, (closesText_end_iff noEscape expected others).mp balanced,
      Nat.lt_succ_self _, fun tail => ?_⟩
    rw [List.cons_append, afterText_end noEscape]
  | case4 c others noPair differs ih =>
    have plain : c ≠ '\\' := by
      rintro rfl
      cases others with
      | nil => exact not_closesText_escape quote expected balanced
      | cons d others => exact noPair d others rfl rfl
    obtain ⟨rest, found, closes, shorter, longer⟩ :=
      ih ((closesText_cons_iff differs plain expected others).mp balanced).2
    refine ⟨rest, found, closes, Nat.lt_succ_of_lt shorter, fun tail => ?_⟩
    rw [List.cons_append, afterText_cons differs plain, longer]

omit isLast in
theorem afterPieces_text {c : Char} (quoted : isQuote c = true) {rest behind : List Char}
    (found : afterText? c rest = some behind) (ends : Char → Bool) (fuel : Nat) :
    afterPieces ends (fuel + 1) (c :: rest) = afterPieces ends fuel behind := by
  simp only [afterPieces, quoted, if_true, found]

omit isLast in
theorem afterPieces_group {c closer : Char} (opening : closerOf? c = some closer)
    {rest behind : List Char} {fuel : Nat}
    (found : afterPieces endsNested fuel rest = closer :: behind) (ends : Char → Bool) :
    afterPieces ends (fuel + 1) (c :: rest) = afterPieces ends fuel behind := by
  simp only [afterPieces, isQuote_of_opening opening, Bool.false_eq_true, if_false, opening, found,
    if_true]

omit isLast in
theorem afterPieces_single {c : Char} (noQuote : isQuote c = false) (noOpening : closerOf? c = none)
    (ends : Char → Bool) (fuel : Nat) (rest : List Char) :
    afterPieces ends (fuel + 1) (c :: rest) =
      if ends c then c :: rest else afterPieces ends fuel rest := by
  simp only [afterPieces, noQuote, Bool.false_eq_true, if_false, noOpening]

omit isLast in
/-- The run of pieces in a balanced source ends at the same place with a tail
behind, and before what closes the source. -/
theorem afterPieces_append (ends : Char → Bool) (tail : List Char)
    (closers : ∀ c, endsNested c = true → ends c = true) {fuel : Nat} :
    ∀ (moreFuel : Nat) {expected source : List Char} {closer : Char},
      Closes (closer :: expected) source → source.length ≤ fuel → source.length ≤ moreFuel →
      ∃ c rest, afterPieces ends fuel source = c :: rest ∧ ends c = true ∧
        Closes (closer :: expected) (c :: rest) ∧ rest.length < source.length ∧
        afterPieces ends moreFuel (source ++ tail) = c :: rest ++ tail := by
  induction fuel generalizing ends with
  | zero =>
    intro moreFuel expected source closer balanced enough
    obtain rfl := List.eq_nil_of_length_eq_zero (Nat.le_zero.mp enough)
    exact absurd balanced (by simp [closes_nil_iff])
  | succ fuel ih =>
    intro moreFuel expected source closer balanced enough moreEnough
    match source, moreFuel with
    | [], _ => exact absurd balanced (by simp [closes_nil_iff])
    | _ :: _, 0 => exact absurd moreEnough (by simp)
    | c :: rest, moreFuel + 1 =>
      simp only [List.length_cons, Nat.add_le_add_iff_right] at enough moreEnough
      rw [List.cons_append]
      obtain quoted | ⟨inner, opening⟩ | isCloser | plain := char_cases c
      · obtain ⟨behind, found, closes, shorter, longer⟩ :=
          afterText_append quoted ((closes_quote_iff quoted _ rest).mp balanced)
        obtain ⟨d, last, alone, ending, closed, bound, before⟩ :=
          ih ends closers moreFuel closes (by omega) (by omega)
        refine ⟨d, last, ?_, ending, closed, by simp only [List.length_cons]; omega, ?_⟩
        · rw [afterPieces_text quoted found, alone]
        · rw [afterPieces_text quoted (longer tail), before]
      · obtain ⟨d, behind, alone, isInner, closes, shorter, before⟩ :=
          ih endsNested (fun _ nested => nested) moreFuel
            ((closes_opening_iff opening _ rest).mp balanced) enough moreEnough
        obtain ⟨outer, same, closed⟩ := (closes_closer_iff isInner _ behind).mp closes
        obtain ⟨rfl, rfl⟩ := List.cons.inj same
        obtain ⟨e, last, aloneThen, ending, closedThen, bound, beforeThen⟩ :=
          ih ends closers moreFuel closed (by omega) (by omega)
        refine ⟨e, last, ?_, ending, closedThen, by simp only [List.length_cons]; omega, ?_⟩
        · rw [afterPieces_group opening alone, aloneThen]
        · rw [List.cons_append] at before
          rw [afterPieces_group opening before, beforeThen]
      · have noQuote := isQuote_of_closer isCloser
        have noOpening := closerOf_of_closer isCloser
        refine ⟨c, rest, ?_, closers c isCloser, balanced, Nat.lt_succ_self _, ?_⟩
        · rw [afterPieces_single noQuote noOpening, if_pos (closers c isCloser)]
        · rw [afterPieces_single noQuote noOpening, if_pos (closers c isCloser)]
          rfl
      · have noQuote := isQuote_of_plain plain
        have noOpening := closerOf_of_plain plain
        by_cases stops : ends c = true
        · refine ⟨c, rest, ?_, stops, balanced, Nat.lt_succ_self _, ?_⟩
          · rw [afterPieces_single noQuote noOpening, if_pos stops]
          · rw [afterPieces_single noQuote noOpening, if_pos stops]
            rfl
        · obtain ⟨d, last, alone, ending, closed, bound, before⟩ :=
            ih ends closers moreFuel ((closes_plain_iff plain _ rest).mp balanced) enough
              moreEnough
          refine ⟨d, last, ?_, ending, closed, Nat.lt_succ_of_lt bound, ?_⟩
          · rw [afterPieces_single noQuote noOpening, if_neg stops, alone]
          · rw [afterPieces_single noQuote noOpening, if_neg stops, before]

theorem listener_before {closer : Char} (balanced : Closes (closer :: expected) source) :
    ReadsBefore tail (closer :: expected) source listenerSource := by
  rw [← closes_skipBlanks_iff] at balanced
  have enough := Nat.le_refl (skipBlanks source).length
  obtain ⟨c, rest, alone, -, closes, bound, before⟩ :=
    afterPieces_append endsListener tail (fun c ends => by simp [endsListener, ends])
      (skipBlanks source ++ tail).length balanced enough (by simp)
  refine ⟨?_, fun result rest found => ?_, fun _ _ found => listenerSource_length_lt found⟩
  · unfold listenerSource
    simp only [skipBlanks_append isLast, alone, before]
    have distance : (skipBlanks source ++ tail).length - (c :: rest ++ tail).length =
        (skipBlanks source).length - (c :: rest).length := by
      simp only [List.length_append]
      omega
    rw [distance, List.take_append_of_le_length (Nat.sub_le _ _)]
    split <;> rfl
  · unfold listenerSource at found
    simp only [alone] at found
    split at found
    · cases found
    · simp only [Option.some.injEq, Prod.mk.injEq] at found
      exact found.2 ▸ closes

def beforePairing (tail : List Char) (isLast : isTail tail = true) : Pairing where
  holds := Before tail
  opening single opens := by
    rintro expected - right ⟨rfl, balanced⟩
    exact (opening_before isLast single opens balanced).toMatch
  closing single closer := by
    rintro expected - right ⟨rfl, balanced⟩
    exact (closing_before isLast single closer balanced).toMatch
  comma := by
    rintro c expected - right ⟨rfl, balanced⟩
    exact (comma_before isLast balanced).toMatch
  inner isInner := by
    rintro expected - right ⟨rfl, balanced⟩
    exact (inner_before isLast isInner balanced).toMatch
  name := by
    rintro expected - right ⟨rfl, balanced⟩
    exact (name_before isLast balanced).toMatch
  text := by
    rintro expected - right ⟨rfl, balanced⟩
    exact (text_before isLast balanced).toMatch
  number := by
    rintro expected - right ⟨rfl, balanced⟩
    exact (number_before isLast balanced).toMatch
  listener := by
    rintro c expected - right ⟨rfl, balanced⟩
    exact (listener_before isLast balanced).toMatch

/-- A balanced source is read before a tail as it is read alone. -/
theorem expression_before {source : List Char} (balanced : Closes expected source) :
    ReadsBefore tail expected source expression := by
  have related : (beforePairing tail isLast).holds expected (source ++ tail) source := ⟨rfl, balanced⟩
  have found := expression_match related
  exact .ofMatch found fun _ _ read => expression_length_lt read

theorem pattern_before {source : List Char} (balanced : Closes expected source) :
    ReadsBefore tail expected source pattern := by
  have related : (beforePairing tail isLast).holds expected (source ++ tail) source := ⟨rfl, balanced⟩
  have found := pattern_match related
  exact .ofMatch found fun _ _ read => pattern_length_lt read

end Tokens

/-! ## Patterns are balanced -/

/-- Reading from `start` to a rest has opened the brackets that the rest has
still to close, and no others. -/
def Opened (start expected left right : List Char) : Prop :=
  left = right ∧ ∀ outer, Closes outer start ↔ Closes (expected ++ outer) left

section Opened

variable {start source expected : List Char}

theorem Opened.toMarkMatch {mark : String} {rests : List Char} (given : mark.toList ≠ [])
    (opened : Opened start expected source source)
    (moves : ∀ rest outer, skipBlanks source = mark.toList ++ rest →
      (Closes (expected ++ outer) (skipBlanks source) ↔ Closes (rests ++ outer) rest)) :
    MarkMatch (Opened start rests) source source (mark? mark source) (mark? mark source) := by
  cases found : mark? mark source with
  | none => exact .none
  | some rest =>
    have less := mark_length_lt given found
    refine .some rest rest ⟨rfl, fun outer => ?_⟩ less less
    rw [opened.2 outer, ← closes_skipBlanks_iff]
    exact moves rest outer ((mark_eq_some_iff mark source rest).mp found)

/-- The pairing of a source with itself that keeps count of the brackets. -/
def openedPairing (start : List Char) : BracketPairing where
  holds := Opened start
  opening single opens := by
    rintro expected left _ ⟨rfl, opened⟩
    refine Opened.toMarkMatch (by simp [single]) ⟨rfl, opened⟩ fun rest outer split => ?_
    rw [split, single]
    exact closes_opening_iff opens (expected ++ outer) rest
  closing single closer := by
    rintro expected left _ ⟨rfl, opened⟩
    refine Opened.toMarkMatch (by simp [single]) ⟨rfl, opened⟩ fun rest outer split => ?_
    rw [split, single]
    simp [closes_closer_iff closer]
  comma := by
    rintro c expected left _ ⟨rfl, opened⟩
    refine Opened.toMarkMatch (by decide) ⟨rfl, opened⟩ fun rest outer split => ?_
    rw [split]
    exact closes_plain_iff (c := ',') rfl _ rest
  inner isInner := by
    rintro expected left _ ⟨rfl, opened⟩
    refine Opened.toMarkMatch (isInnerMark_ne_nil isInner) ⟨rfl, opened⟩ fun rest outer split => ?_
    rw [split]
    exact closes_plain_append_iff (isInnerMark_plain isInner) _ rest
  name := by
    rintro expected left _ ⟨rfl, opened⟩
    cases found : anyName left with
    | none => exact .none
    | some entry =>
      have less := anyName_length_lt found
      refine .some entry.1 entry.2 entry.2 ⟨rfl, fun outer => ?_⟩ less less
      obtain ⟨taken, plain, split⟩ := anyName_plain found
      rw [opened outer, ← closes_skipBlanks_iff, split]
      exact closes_plain_append_iff plain _ entry.2

end Opened

theorem closes_pattern_iff {source rest : List Char} {result : Pattern}
    (found : pattern source = some (result, rest)) (outer : List Char) :
    Closes outer source ↔ Closes outer rest := by
  have start : (openedPairing source).holds [] source source := ⟨rfl, fun _ => Iff.rfl⟩
  have opened := pattern_match start
  rw [found] at opened
  cases opened with
  | some _ _ _ related => exact related.2 outer

end Templating.Expression.Grammar
