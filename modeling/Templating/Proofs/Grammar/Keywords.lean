import Templating.Proofs.Grammar.Writing
/-!
# Source that the lexical checks pass

`InOrder expected source` says that the source closes the brackets in `expected`, unless a
line ends inside one of its texts, and that none of its words is a misused keyword.  It is
shown from the end of the source to its start, one token after the other, always with what
follows present: a word ends where no name goes on, and what stands behind a keyword can
make it a key.
-/
set_option autoImplicit false

namespace Templating.Expression

open Templating.Text Grammar

/-- A line ends inside a quoted text, with no backslash before its end. -/
def breaksText : Region → List Char → Bool
  | _, [] => false
  | .quoted quote true, _ :: rest => breaksText (.quoted quote false) rest
  | .quoted quote false, c :: rest =>
    if c = '\\' then breaksText (.quoted quote true) rest
    else if c = quote then breaksText .code rest
    else c == '\n' || breaksText (.quoted quote false) rest
  | .code, c :: rest =>
    if isQuote c then breaksText (.quoted c false) rest else breaksText .code rest

/-- No word is a misused keyword, whatever stands before the source. -/
def KeywordFree (source : List Char) : Prop :=
  ∀ before, ∀ word ∈ wordsFrom before [] (withoutTexts .code source), word.isMisusedKeyword = false

/-- The source closes the brackets in `expected`, unless one of its texts is broken. -/
def ClosesUnbroken (expected source : List Char) : Prop :=
  breaksText .code source = false → Closes expected source

structure InOrder (expected source : List Char) : Prop where
  closes : ClosesUnbroken expected source
  keywords : KeywordFree source

/-- In order, and no name goes on here. -/
structure InOrderApart (expected source : List Char) : Prop extends InOrder expected source where
  apart : EndsName source

/-! ## Kinds of characters -/

section Kinds

variable {c : Char}

theorem isNameStart_of_stops (stops : isNameChar c = false) : isNameStart c = false := by
  by_contra start
  rw [isNameChar_of_isNameStart (eq_true_of_ne_false start)] at stops
  cases stops

theorem isNameChar_of_special (special : isPlain c = false) : isNameChar c = false := by
  by_contra named
  rw [isPlain_of_isNameChar (eq_true_of_ne_false named)] at special
  cases special

theorem bare_of_isAsciiDigit (digit : isAsciiDigit c = true) :
    isPlain c = true ∧ isNameStart c = false :=
  ⟨isPlain_of_isAsciiDigit digit, isNameStart_of_isAsciiDigit digit⟩

theorem isNameChar_of_isSeparatingBlank (blank : isSeparatingBlank c = true) :
    isNameChar c = false := by
  rcases isSeparatingBlank_cases blank with rfl | rfl | rfl | rfl <;> rfl

theorem isBlank_of_isSeparatingBlank (blank : isSeparatingBlank c = true) : isBlank c = true := by
  rcases isSeparatingBlank_cases blank with rfl | rfl | rfl | rfl <;> rfl

theorem bare_of_isSeparatingBlank (blank : isSeparatingBlank c = true) :
    isPlain c = true ∧ isNameStart c = false :=
  ⟨isPlain_of_isSeparatingBlank blank, isNameStart_of_stops (isNameChar_of_isSeparatingBlank blank)⟩

end Kinds

/-! ## Words -/

section Words

variable {c : Char} {rest : List Char}

theorem withoutTexts_cons (noQuote : isQuote c = false) (rest : List Char) :
    withoutTexts .code (c :: rest) = c :: withoutTexts .code rest := by
  simp [withoutTexts, noQuote]

theorem withoutTexts_append {taken : List Char} (noQuote : ∀ c ∈ taken, isQuote c = false)
    (rest : List Char) : withoutTexts .code (taken ++ rest) = taken ++ withoutTexts .code rest := by
  induction taken with
  | nil => rfl
  | cons c others ih =>
    rw [List.cons_append, withoutTexts_cons (noQuote c List.mem_cons_self),
      ih fun d held => noQuote d (List.mem_cons_of_mem c held), List.cons_append]

/-- A text becomes a blank, so that no name goes on before it either. -/
theorem endsName_withoutTexts (apart : EndsName rest) : EndsName (withoutTexts .code rest) := by
  cases rest with
  | nil => exact apart
  | cons c others =>
    by_cases quote : isQuote c = true
    · have blank : ∀ region source, region ≠ Region.code →
          ∃ behind, withoutTexts region source = ' ' :: behind := by
        intro region source
        fun_induction withoutTexts region source <;> simp_all
      obtain ⟨behind, same⟩ := blank (.quoted c false) others nofun
      rw [withoutTexts, if_pos quote, same]
      exact endsName_cons rfl behind
    · rw [withoutTexts_cons (eq_false_of_ne_true quote)]
      exact endsName_cons (apart c rfl) _

theorem wordsFrom_other (noStart : isNameStart c = false) (before : Option Char) (rest : List Char) :
    wordsFrom before [] (c :: rest) = wordsFrom (if isBlank c then before else some c) [] rest := by
  simp [wordsFrom, noStart]

theorem wordsFrom_blanks {blanks : List Char} (blank : blanks.all isSeparatingBlank = true)
    (before : Option Char) (rest : List Char) :
    wordsFrom before [] (blanks ++ rest) = wordsFrom before [] rest := by
  induction blanks with
  | nil => rfl
  | cons c others ih =>
    obtain ⟨first, others⟩ := Bool.and_eq_true_iff.mp blank
    rw [List.cons_append, wordsFrom_other (bare_of_isSeparatingBlank first).2,
      if_pos (isBlank_of_isSeparatingBlank first), ih others]

theorem isMisusedKeyword_of_free {word : Word} (free : String.ofList word.name ∉ keywords) :
    word.isMisusedKeyword = false := by
  rw [Word.isMisusedKeyword, List.contains_eq_mem, decide_eq_false free, Bool.false_and, Bool.false_and]

theorem wordsFrom_name {c : Char} {taken rest : List Char} (start : isNameStart c = true)
    (named : ∀ d ∈ taken, isNameChar d = true) (apart : EndsName rest) (before : Option Char) :
    ∃ behind, wordsFrom before [] (c :: taken ++ rest) =
      ⟨before, c :: taken, rest⟩ :: wordsFrom behind [] rest := by
  -- `current` is what has been read of the name, last character first.
  have goesOn : ∀ current more, current ≠ [] → (∀ d ∈ more, isNameChar d = true) →
      ∃ behind, wordsFrom before current (more ++ rest) =
        ⟨before, current.reverse ++ more, rest⟩ :: wordsFrom behind [] rest := by
    intro current more given named
    induction more generalizing current with
    | nil =>
      have nonempty : current.isEmpty = false := List.isEmpty_eq_false_iff.mpr given
      cases rest with
      | nil => exact ⟨none, by simp [wordsFrom, nonempty]⟩
      | cons d others =>
        have stops : isNameChar d = false := apart d rfl
        refine ⟨current.head?, ?_⟩
        rw [wordsFrom_other (isNameStart_of_stops stops)]
        simp [wordsFrom, nonempty, stops]
    | cons d others ih =>
      obtain ⟨here, inside⟩ := List.forall_mem_cons.mp named
      obtain ⟨behind, same⟩ := ih (d :: current) (List.cons_ne_nil d current) inside
      refine ⟨behind, ?_⟩
      rw [List.cons_append, wordsFrom, if_neg (by simpa using given), if_pos here, same,
        List.reverse_cons, List.append_assoc, List.singleton_append]
  obtain ⟨behind, same⟩ := goesOn [c] taken (List.cons_ne_nil c []) named
  exact ⟨behind, by simpa [wordsFrom, start] using same⟩

end Words

/-! ## Single characters -/

section Characters

variable {c : Char} {expected inner rest : List Char}

theorem ClosesUnbroken.cons (noQuote : isQuote c = false)
    (closes : Closes inner rest → Closes expected (c :: rest)) (balanced : ClosesUnbroken inner rest) :
    ClosesUnbroken expected (c :: rest) := by
  intro unbroken
  rw [breaksText, if_neg (by simp [noQuote])] at unbroken
  exact closes (balanced unbroken)

theorem ClosesUnbroken.run {taken : List Char} (plain : ∀ c ∈ taken, isPlain c = true)
    (balanced : ClosesUnbroken expected rest) : ClosesUnbroken expected (taken ++ rest) := by
  induction taken with
  | nil => exact balanced
  | cons c others ih =>
    obtain ⟨first, inside⟩ := List.forall_mem_cons.mp plain
    exact (ih inside).cons (isQuote_of_plain first) (closes_plain_iff first expected _).mpr

theorem InOrder.bare (noQuote : isQuote c = false) (noStart : isNameStart c = false)
    (closes : Closes inner rest → Closes expected (c :: rest)) (order : InOrder inner rest) :
    InOrder expected (c :: rest) := by
  refine ⟨order.closes.cons noQuote closes, fun before => ?_⟩
  rw [withoutTexts_cons noQuote, wordsFrom_other noStart]
  exact order.keywords _

theorem InOrder.plain (plain : isPlain c = true) (noStart : isNameStart c = false)
    (order : InOrder expected rest) : InOrder expected (c :: rest) :=
  order.bare (isQuote_of_plain plain) noStart (closes_plain_iff plain expected rest).mpr

theorem InOrder.opening {closer : Char} (opening : closerOf? c = some closer)
    (order : InOrder (closer :: expected) rest) : InOrder expected (c :: rest) := by
  have noName : isNameChar c = false := isNameChar_of_special (by simp [isPlain, opening])
  exact order.bare (isQuote_of_opening opening) (isNameStart_of_stops noName)
    (closes_opening_iff opening expected rest).mpr

theorem InOrder.closing (closer : endsNested c = true) (order : InOrder expected rest) :
    InOrder (c :: expected) (c :: rest) := by
  have noName : isNameChar c = false := isNameChar_of_special (by simp [isPlain, closer])
  exact order.bare (isQuote_of_closer closer) (isNameStart_of_stops noName) fun closes =>
    (closes_closer_iff closer (c :: expected) rest).mpr ⟨expected, rfl, closes⟩

theorem InOrder.run {taken : List Char}
    (bare : ∀ c ∈ taken, isPlain c = true ∧ isNameStart c = false) (order : InOrder expected rest) :
    InOrder expected (taken ++ rest) := by
  induction taken with
  | nil => exact order
  | cons c others ih =>
    obtain ⟨⟨plain, noStart⟩, inside⟩ := List.forall_mem_cons.mp bare
    exact (ih inside).plain plain noStart

theorem takeWhile_append_skipBlanks (source : List Char) :
    source.takeWhile isSeparatingBlank ++ skipBlanks source = source :=
  List.takeWhile_append_dropWhile

theorem InOrder.ofSkipBlanks {source : List Char} (order : InOrder expected (skipBlanks source)) :
    InOrder expected source := by
  rw [← takeWhile_append_skipBlanks source]
  exact order.run fun c held => bare_of_isSeparatingBlank (List.mem_takeWhile_imp held)

theorem endsName_of_skipBlanks {source : List Char} (apart : EndsName (skipBlanks source)) :
    EndsName source := by
  cases source with
  | nil => exact apart
  | cons c others =>
    by_cases blank : isSeparatingBlank c = true
    · exact endsName_cons (isNameChar_of_isSeparatingBlank blank) others
    · rwa [skipBlanks_cons (eq_false_of_ne_true blank)] at apart

end Characters

/-! ## Names -/

section Names

variable {c : Char} {taken expected rest : List Char} (start : isNameStart c = true)
  (named : ∀ d ∈ taken, isNameChar d = true) (apart : EndsName rest)
  (order : InOrder expected rest)

include start named

theorem name_plain : ∀ d ∈ c :: taken, isPlain d = true := by
  intro d held
  rcases List.mem_cons.mp held with rfl | held
  · exact isPlain_of_isNameChar (isNameChar_of_isNameStart start)
  · exact isPlain_of_isNameChar (named d held)

theorem withoutTexts_name (rest : List Char) :
    withoutTexts .code (c :: taken ++ rest) = c :: taken ++ withoutTexts .code rest :=
  withoutTexts_append (fun d held => isQuote_of_plain (name_plain start named d held)) rest

include apart order

/-- A name that is no keyword, or that is followed by what makes it a key. -/
theorem InOrder.name
    (free : ∀ before, Word.isMisusedKeyword ⟨before, c :: taken, withoutTexts .code rest⟩ = false) :
    InOrder expected (c :: taken ++ rest) := by
  refine ⟨order.closes.run (name_plain start named), fun before => ?_⟩
  obtain ⟨behind, same⟩ := wordsFrom_name start named (endsName_withoutTexts apart) before
  rw [withoutTexts_name start named, same]
  exact List.forall_mem_cons.mpr ⟨free before, order.keywords behind⟩

theorem InOrder.property {blanks : List Char} (blank : blanks.all isSeparatingBlank = true) :
    InOrder expected ('.' :: (blanks ++ (c :: taken ++ rest))) := by
  have bare : ∀ d ∈ blanks, isPlain d = true := fun d held =>
    isPlain_of_isSeparatingBlank (List.all_eq_true.mp blank d held)
  refine ⟨?_, fun before => ?_⟩
  · have inside := (order.closes.run (name_plain start named)).run bare
    exact inside.cons rfl (closes_plain_iff rfl expected _).mpr
  · obtain ⟨behind, same⟩ := wordsFrom_name start named (endsName_withoutTexts apart) (some '.')
    rw [withoutTexts_cons rfl, withoutTexts_append fun d held => isQuote_of_plain (bare d held),
      withoutTexts_name start named, wordsFrom_other rfl, if_neg (by decide), wordsFrom_blanks blank, same]
    refine List.forall_mem_cons.mpr ⟨?_, order.keywords behind⟩
    simp [Word.isMisusedKeyword]

end Names

/-! ## Texts and numbers -/

section Literals

variable {expected source rest : List Char}

theorem textInside_passed {quote : Char} {inside : List Char} (quoted : isQuote quote = true)
    (found : textInside quote source = some (inside, rest)) :
    withoutTexts (.quoted quote false) source = ' ' :: withoutTexts .code rest ∧
      (breaksText (.quoted quote false) source = false →
        breaksText .code rest = false ∧ (ClosesText quote expected source ↔ Closes expected rest)) := by
  have noEscape := quote_ne_escape quoted
  -- Reading the text, taking it out and checking its quotes go over the same characters: an
  -- escaped one is passed as a pair, the quote ends the text, and any other is passed alone.
  fun_induction textInside quote source generalizing inside with
  | case1 => cases found
  | case2 => cases found
  | case3 c others ih =>
    obtain ⟨⟨innerInside, innerRest⟩, inner, same⟩ := Option.map_eq_some_iff.mp found
    cases same
    obtain ⟨words, unbroken⟩ := ih inner
    refine ⟨by simpa [withoutTexts] using words, fun whole => ?_⟩
    rw [closesText_escape_iff]
    exact unbroken (by simpa [breaksText] using whole)
  | case4 others =>
    cases found
    refine ⟨by simp [withoutTexts, noEscape], fun whole => ?_⟩
    rw [closesText_end_iff noEscape]
    exact ⟨by simpa [breaksText, noEscape] using whole, Iff.rfl⟩
  | case5 c others notLast notEscape differs ih =>
    obtain ⟨⟨innerInside, innerRest⟩, inner, same⟩ := Option.map_eq_some_iff.mp found
    cases same
    have visible : c ≠ '\\' := by
      intro escape
      cases others with
      | nil => exact notLast escape rfl
      | cons d behind => exact notEscape d behind escape rfl
    obtain ⟨words, unbroken⟩ := ih inner
    refine ⟨by simpa [withoutTexts, visible, differs] using words, fun whole => ?_⟩
    simp only [breaksText, if_neg visible, if_neg differs, Bool.or_eq_false_iff,
      beq_eq_false_iff_ne] at whole
    obtain ⟨closed, closes⟩ := unbroken whole.2
    exact ⟨closed, by simpa [closesText_cons_iff differs visible, whole.1] using closes⟩

theorem InOrder.text {content : String} (found : textLiteral source = some (content, rest))
    (order : InOrder expected rest) : InOrder expected source := by
  unfold textLiteral at found
  split at found
  · cases found
  · next quote others atStart =>
    split at found
    · next quoted =>
      obtain ⟨⟨inside, behind⟩, passed, same⟩ := Option.map_eq_some_iff.mp found
      cases same
      have isQuoted : isQuote quote = true := by rcases quoted with rfl | rfl <;> rfl
      obtain ⟨words, unbroken⟩ := @textInside_passed expected _ _ _ _ isQuoted passed
      refine .ofSkipBlanks ?_
      rw [atStart]
      refine ⟨fun whole => ?_, fun before => ?_⟩
      · rw [breaksText, if_pos isQuoted] at whole
        obtain ⟨closed, closes⟩ := unbroken whole
        exact (closes_quote_iff isQuoted expected others).mpr (closes.mpr (order.closes closed))
      · rw [withoutTexts, if_pos isQuoted, words, wordsFrom_other rfl]
        exact order.keywords _
    · cases found

theorem keywords_letters : ∀ word ∈ keywords, (word.toList.tail.any fun c => !isAsciiDigit c) = true := by
  decide +kernel

theorem fraction_bare {c : Char} (held : c ∈ (fraction source).1) :
    isPlain c = true ∧ isNameStart c = false := by
  unfold fraction at held
  split at held
  · simp only at held
    split at held
    · cases held
    · rcases List.mem_cons.mp held with rfl | held
      · exact ⟨rfl, rfl⟩
      · exact bare_of_isAsciiDigit (List.mem_takeWhile_imp held)
  · cases held

/-- The mark of an exponent and digits behind it are one word, and no keyword. -/
theorem InOrder.exponentWord {e : Char} {digits : List Char} (mark : isExponentMark e = true)
    (digit : ∀ c ∈ digits, isAsciiDigit c = true) (apart : EndsName rest)
    (order : InOrder expected rest) : InOrder expected (e :: digits ++ rest) := by
  have start : isNameStart e = true := by
    simp only [isExponentMark, Bool.or_eq_true, beq_iff_eq] at mark
    rcases mark with rfl | rfl <;> rfl
  have named : ∀ c ∈ digits, isNameChar c = true := fun c held => by
    simp [isNameChar, isAsciiWord, digit c held]
  refine .name start named apart order fun before => ?_
  have noKeyword : String.ofList (e :: digits) ∉ Expression.keywords := by
    intro listed
    obtain ⟨c, held, noDigit⟩ := List.any_eq_true.mp (keywords_letters _ listed)
    rw [String.toList_ofList, List.tail_cons] at held
    rw [digit c held] at noDigit
    cases noDigit
  exact isMisusedKeyword_of_free noKeyword

theorem InOrder.digits (order : InOrder expected (source.dropWhile isAsciiDigit)) :
    InOrder expected source := by
  rw [← List.takeWhile_append_dropWhile (p := isAsciiDigit) (l := source)]
  exact order.run fun c held => bare_of_isAsciiDigit (List.mem_takeWhile_imp held)

/-- Only an exponent without a sign runs into a name behind it. -/
theorem InOrder.exponent (apart : EndsName (exponent source).2)
    (order : InOrder expected (exponent source).2) : InOrder expected source := by
  cases source with
  | nil => exact order
  | cons e rest =>
    by_cases mark : isExponentMark e = true
    · by_cases signed : ∃ sign behind, rest = sign :: behind ∧ isSign sign = true
      · obtain ⟨sign, behind, rfl, signed⟩ := signed
        rw [exponent_signed mark signed] at order
        split at order
        · exact order
        · have bare : isPlain sign = true ∧ isNameStart sign = false ∧ isNameChar sign = false := by
            simp only [isSign, Bool.or_eq_true, beq_iff_eq] at signed
            rcases signed with rfl | rfl <;> decide
          -- The sign ends the word, which is the mark alone.
          have inside := order.digits.plain bare.1 bare.2.1
          show InOrder expected (e :: [] ++ sign :: behind)
          exact .exponentWord mark (List.forall_mem_nil _) (endsName_cons bare.2.2 behind) inside
      · have unsigned : ∀ c behind, rest = c :: behind → isSign c = false := fun c behind same =>
          eq_false_of_ne_true fun sign => signed ⟨c, behind, same, sign⟩
        rw [exponent_unsigned mark unsigned] at apart order
        split at order
        · exact order
        · next given =>
          rw [if_neg given] at apart
          rw [← List.takeWhile_append_dropWhile (p := isAsciiDigit) (l := rest)]
          exact .exponentWord mark (fun c held => List.mem_takeWhile_imp held) apart order
    · rwa [exponent_other fun c others same => by
        obtain ⟨rfl, -⟩ := List.cons.inj same
        exact Bool.eq_false_iff.mpr mark] at order

theorem InOrder.number {digits : List Char} (found : numberText source = some (digits, rest))
    (apart : EndsName rest) (order : InOrder expected rest) : InOrder expected source := by
  unfold numberText at found
  simp only at found
  split at found
  · cases found
  · simp only [Option.some.injEq, Prod.mk.injEq] at found
    obtain ⟨-, rfl⟩ := found
    refine .ofSkipBlanks (.digits ?_)
    rw [← fraction_append ((skipBlanks source).dropWhile isAsciiDigit)]
    exact .run (fun c held => fraction_bare held) (.exponent apart order)

end Literals

/-! ## Marks -/

def isBareMark (mark : String) : Bool :=
  !mark.toList.isEmpty && mark.toList.all fun c => isPlain c && !isNameChar c

section Marks

variable {mark : String} {c : Char} {expected source rest : List Char}

theorem InOrderApart.ofSkipBlanks (order : InOrderApart expected (skipBlanks source)) :
    InOrderApart expected source :=
  ⟨order.toInOrder.ofSkipBlanks, endsName_of_skipBlanks order.apart⟩

theorem InOrder.beforeMark (bare : isBareMark mark = true) (found : mark? mark source = some rest)
    (order : InOrder expected rest) : InOrderApart expected source := by
  simp only [isBareMark, Bool.and_eq_true, Bool.not_eq_true', List.all_eq_true] at bare
  obtain ⟨given, bare⟩ := bare
  rw [mark_eq_some_iff] at found
  refine .ofSkipBlanks ?_
  rw [found]
  refine ⟨order.run fun c held => ⟨(bare c held).1, isNameStart_of_stops (bare c held).2⟩, ?_⟩
  obtain ⟨c, others, same⟩ := List.exists_cons_of_ne_nil (List.isEmpty_eq_false_iff.mp given)
  rw [same] at bare ⊢
  exact endsName_cons (bare c List.mem_cons_self).2 (others ++ rest)

variable {opening closing : String} {opener closer : Char}
  (pair : IsBracketPair opening closing opener closer)

include pair

theorem InOrder.beforeOpening (found : mark? opening source = some rest)
    (order : InOrder (closer :: expected) rest) : InOrderApart expected source := by
  rw [mark_eq_some_iff, pair.openingText] at found
  refine .ofSkipBlanks ?_
  rw [found]
  exact ⟨order.opening pair.belongs, endsName_cons
    (isNameChar_of_special (by simp [isPlain, pair.belongs])) rest⟩

theorem InOrder.beforeClosing (found : mark? closing source = some rest)
    (order : InOrder expected rest) : InOrderApart (closer :: expected) source := by
  rw [mark_eq_some_iff, pair.closingText] at found
  refine .ofSkipBlanks ?_
  rw [found]
  exact ⟨order.closing pair.ends, endsName_cons
    (isNameChar_of_special (by simp [isPlain, pair.ends])) rest⟩

end Marks

/-! ## Names that are read -/

section AnyName

variable {name : String} {expected source rest : List Char}
  (found : anyName source = some (name, rest)) (order : InOrder expected rest)

include found

theorem endsName_of_anyName : EndsName rest := by
  unfold anyName at found
  split at found
  · cases found
  · next c others _ =>
    split at found
    · cases found
      intro d same
      have stopped := List.head?_dropWhile_not isNameChar others
      rwa [same] at stopped
    · cases found

include order

theorem InOrder.beforeName (free : name ∉ Expression.keywords) : InOrder expected source := by
  have apart := endsName_of_anyName found
  obtain ⟨c, taken, start, named, rfl, split⟩ := anyName_eq_some found
  refine .ofSkipBlanks ?_
  rw [split]
  exact order.name start named apart fun before => isMisusedKeyword_of_free free

theorem InOrder.beforeProperty {point : List Char} (pointed : mark? "." point = some source) :
    InOrderApart expected point := by
  have apart := endsName_of_anyName found
  obtain ⟨c, taken, start, named, -, split⟩ := anyName_eq_some found
  rw [mark_eq_some_iff] at pointed
  have blank : (source.takeWhile isSeparatingBlank).all isSeparatingBlank = true := List.all_takeWhile
  have property := order.property start named apart blank
  rw [← split, takeWhile_append_skipBlanks] at property
  refine .ofSkipBlanks ?_
  rw [pointed]
  exact ⟨property, endsName_cons rfl source⟩

theorem InOrder.beforeKey {value : List Char} (colon : mark? ":" rest = some value) :
    InOrder expected source := by
  have apart := endsName_of_anyName found
  obtain ⟨c, taken, start, named, -, split⟩ := anyName_eq_some found
  refine .ofSkipBlanks ?_
  rw [split]
  refine order.name start named apart fun before => ?_
  -- Texts taken out of the source leave the colon the first thing that is visible.
  have behind : startsWith [':'] (trimStart (withoutTexts .code rest)) = true := by
    rw [mark_eq_some_iff] at colon
    have blank : ∀ c ∈ rest.takeWhile isSeparatingBlank, isSeparatingBlank c = true :=
      fun c held => List.mem_takeWhile_imp held
    rw [← takeWhile_append_skipBlanks rest, colon, withoutTexts_append fun c held =>
      isQuote_of_plain (isPlain_of_isSeparatingBlank (blank c held)), trimStart,
      List.dropWhile_append_of_pos fun c held => isBlank_of_isSeparatingBlank (blank c held)]
    rfl
  simp [Word.isMisusedKeyword, behind]

end AnyName

end Templating.Expression
