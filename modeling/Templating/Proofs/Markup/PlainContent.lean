import Templating.Proofs.Markup.Written
/-!
# Content that is text

Behind the start tag of a script, a style or a text area, all up to the next mark that
begins its end tag is one text.  The mark is looked for in any case of letters, and what
follows it is read as any other end tag: its name begins with the tag, but may go on.
-/
set_option autoImplicit false

namespace Templating.Text

theorem asciiLower_cases (c : Char) :
    asciiLower c = c ∨ isAsciiLetter c = true ∧ isAsciiLetter (asciiLower c) = true := by
  unfold asciiLower
  split
  · next capital =>
    refine .inr ?_
    have low : 65 ≤ c.toNat := UInt32.le_iff_toNat_le.mp capital.1
    have high : c.toNat ≤ 90 := UInt32.le_iff_toNat_le.mp capital.2
    have value : (Char.ofNat (c.toNat + 32)).toNat = c.toNat + 32 := by
      rw [Char.ofNat, dif_pos (Or.inl (by omega))]
      rfl
    simp only [isAsciiLetter, Char.le_def, UInt32.le_iff_toNat_le, Bool.or_eq_true,
      Bool.and_eq_true, decide_eq_true_eq]
    refine ⟨.inr capital, .inl ⟨?_, ?_⟩⟩
    · change 97 ≤ (Char.ofNat (c.toNat + 32)).toNat
      omega
    · change (Char.ofNat (c.toNat + 32)).toNat ≤ 122
      omega
  · exact .inl rfl

theorem eq_mark_of_asciiLower {c mark : Char} (noLetter : isAsciiLetter mark = false)
    (same : asciiLower c = mark) : c = mark := by
  rcases asciiLower_cases c with fixed | ⟨-, letter⟩
  · exact fixed.symm.trans same
  · rw [same, noLetter] at letter
    cases letter

theorem isAsciiLetter_of_asciiLower {c : Char} (letter : isAsciiLetter (asciiLower c) = true) :
    isAsciiLetter c = true := by
  rcases asciiLower_cases c with fixed | ⟨own, -⟩
  · rwa [fixed] at letter
  · exact own

theorem spanUntil_snd (pattern source : List Char) :
    (spanUntil pattern source).1 ++ (spanUntil pattern source).2 = source ∧
      ((spanUntil pattern source).2 = [] ∨ ∃ rest, (spanUntil pattern source).2 = pattern ++ rest) := by
  induction source with
  | nil => exact ⟨rfl, .inl rfl⟩
  | cons c rest ih =>
    unfold spanUntil
    split
    · next found =>
      obtain ⟨behind, starts⟩ := Option.isSome_iff_exists.mp found
      exact ⟨rfl, .inr ⟨behind, (dropLeading_eq_some_iff _ _ _).mp starts⟩⟩
    · obtain ⟨whole, stops⟩ := ih
      exact ⟨congrArg (c :: ·) whole, stops⟩

end Templating.Text

namespace Templating.Markup

open Templating.Text

/-! ## What stands there -/

/-- The tokens begin with an end tag that `ends` accepts, or there are none. -/
inductive Closing (ends : String → Prop) : List Token → Prop where
  | openEnd : Closing ends []
  | endTag {name : String} (accepted : ends name) (span : Span) (rest : List Token) :
    Closing ends (.endTag name span :: rest)

/-- One text at most, and behind it an end tag that `ends` accepts or the end. -/
inductive PlainContent (ends : String → Prop) : List Token → Prop where
  | empty {rest : List Token} (closing : Closing ends rest) : PlainContent ends rest
  | text (content : String) (span : Span) {rest : List Token} (closing : Closing ends rest) :
    PlainContent ends (.text content span :: rest)

/-- The name of an end tag at which the text of `tag` ends. -/
def Begins (tag name : String) : Prop :=
  tag.toList.map asciiLower <+: name.toList.map asciiLower

def SameTag (tag name : String) : Prop := sameIgnoringAsciiCase tag name = true

/-- Where the content of an element is text, it ends as `ends` says. -/
def KeepsPlain (ends : (tag name : String) → Prop) : List Token → Prop
  | [] => True
  | token :: rest =>
    (∀ tag ∈ token.plainTextTag?, PlainContent (ends tag) rest) ∧ KeepsPlain ends rest

def Token.endTag? : Token → Option String
  | .endTag name _ => some name
  | _ => none

/-- Where the content of an element is text, the next end tag is its own. -/
def closesPlain : List Token → Bool
  | [] => true
  | token :: rest =>
    (token.plainTextTag?.all fun tag =>
      (rest.findSome? Token.endTag?).all (sameIgnoringAsciiCase tag)) && closesPlain rest

/-! ## Own end tags -/

section Own

variable {ends others : String → Prop} {tokens : List Token}

theorem Closing.imp (closing : Closing ends tokens)
    (next : ∀ name ∈ tokens.findSome? Token.endTag?, ends name → others name) :
    Closing others tokens := by
  cases closing with
  | openEnd => exact .openEnd
  | endTag accepted span rest => exact .endTag (next _ rfl accepted) span rest

theorem PlainContent.imp (content : PlainContent ends tokens)
    (next : ∀ name ∈ tokens.findSome? Token.endTag?, ends name → others name) :
    PlainContent others tokens := by
  cases content with
  | empty closing => exact .empty (closing.imp next)
  | text content span closing => exact .text content span (closing.imp next)

end Own

theorem KeepsPlain.closes {ends : (tag name : String) → Prop} {tokens : List Token}
    (keeps : KeepsPlain ends tokens) (closes : closesPlain tokens = true) :
    KeepsPlain SameTag tokens := by
  induction tokens with
  | nil => exact trivial
  | cons token rest ih =>
    obtain ⟨content, behind⟩ := keeps
    obtain ⟨first, others⟩ := Bool.and_eq_true_iff.mp closes
    refine ⟨?_, ih behind others⟩
    intro tag opens
    refine (content tag opens).imp fun name next _ => ?_
    rw [Option.mem_def.mp opens, Option.all_some, Option.mem_def.mp next, Option.all_some] at first
    exact first

/-! ## Scanning -/

theorem plainTextTag_letters {tag : String} (plain : isPlainTextTag tag = true) :
    ∃ first others, tag.toList.map asciiLower = first :: others ∧
      ∀ c ∈ first :: others, isAsciiLetter c = true := by
  have lowered : tag.toList.map asciiLower = (asciiLowered tag).toList :=
    (String.toList_ofList).symm
  rw [lowered]
  have known : asciiLowered tag ∈ ["script", "style", "textarea"] := List.contains_iff_mem.mp plain
  generalize asciiLowered tag = name at known ⊢
  simp only [List.mem_cons, List.not_mem_nil, or_false] at known
  rcases known with rfl | rfl | rfl
  · exact ⟨'s', "cript".toList, rfl, List.all_eq_true.mp (by decide)⟩
  · exact ⟨'s', "tyle".toList, rfl, List.all_eq_true.mp (by decide)⟩
  · exact ⟨'t', "extarea".toList, rfl, List.all_eq_true.mp (by decide)⟩

theorem takeWhile_begins {word : List Char} (letters : ∀ c ∈ word, isAsciiLetter c = true)
    {rest more : List Char} (lowered : rest.map asciiLower = word ++ more) :
    word <+: (rest.takeWhile isTagNameChar).map asciiLower := by
  induction word generalizing rest with
  | nil => exact List.nil_prefix
  | cons first others ih =>
    obtain ⟨letter, behind⟩ := List.forall_mem_cons.mp letters
    cases rest with
    | nil => cases lowered
    | cons c rest =>
      obtain ⟨rfl, tail⟩ := List.cons.inj lowered
      have accepted := isTagNameChar_of_letter (isAsciiLetter_of_asciiLower letter)
      rw [List.takeWhile_cons_of_pos accepted, List.map_cons]
      exact List.prefix_cons_inj _ |>.mpr (ih behind tail)

/-- The mark at which the content of `tag` ends, in lower case. -/
def closingMark (tag : String) : List Char := '<' :: '/' :: tag.toList.map asciiLower

theorem scanStep_closingMark {tag : String} (plain : isPlainTextTag tag = true) {cursor : Cursor}
    {more : List Char} (lowered : cursor.rest.map asciiLower = closingMark tag ++ more) :
    ∃ name span after, Begins tag name ∧
      scanStep cursor = .emitted (.endTag name span) after := by
  obtain ⟨first, others, word, letters⟩ := plainTextTag_letters plain
  obtain ⟨rest, offset⟩ := cursor
  have mark : rest.map asciiLower = '<' :: '/' :: first :: (others ++ more) := by
    have split := lowered
    rw [closingMark, word] at split
    exact split
  obtain ⟨opening, inside, rfl, opens, afterOpening⟩ := List.map_eq_cons_iff.mp mark
  obtain ⟨slash, behind, rfl, ends, named⟩ := List.map_eq_cons_iff.mp afterOpening
  obtain ⟨c, tail, rfl, letter, -⟩ := List.map_eq_cons_iff.mp named
  obtain rfl : opening = '<' := eq_mark_of_asciiLower (by decide) opens
  obtain rfl : slash = '/' := eq_mark_of_asciiLower (by decide) ends
  have own : isAsciiLetter c = true :=
    isAsciiLetter_of_asciiLower (letter ▸ letters first List.mem_cons_self)
  refine ⟨_, _, _, ?_, scanStep_slash own tail offset⟩
  unfold Begins
  rw [String.toList_ofList, word]
  exact takeWhile_begins letters named

theorem scanPlainText_behind (tag : String) (cursor : Cursor) :
    cursor.rest = (scanPlainText tag cursor).1 ++ (scanPlainText tag cursor).2 ∧
      ((scanPlainText tag cursor).2 = [] ∨
        ∃ more, (scanPlainText tag cursor).2.map asciiLower = closingMark tag ++ more) := by
  refine ⟨(List.take_append_drop _ cursor.rest).symm, ?_⟩
  obtain ⟨split, stops⟩ := spanUntil_snd (closingMark tag) (cursor.rest.map asciiLower)
  have behind : (scanPlainText tag cursor).2.map asciiLower =
      (spanUntil (closingMark tag) (cursor.rest.map asciiLower)).2 := by
    unfold scanPlainText
    rw [List.map_drop]
    exact (congrArg (List.drop _) split.symm).trans List.drop_left
  rw [← behind] at stops
  rcases stops with nothing | found
  · exact .inl (List.map_eq_nil_iff.mp nothing)
  · exact .inr found

theorem scanFrom_closing {tag : String} (plain : isPlainTextTag tag = true) {cursor : Cursor}
    (stops : cursor.rest = [] ∨ ∃ more, cursor.rest.map asciiLower = closingMark tag ++ more)
    (fuel : Nat) : Closing (Begins tag) (scanFrom fuel none cursor) := by
  cases fuel with
  | zero => exact .openEnd
  | succ fuel =>
    unfold scanFrom
    simp only [Option.elim_none, List.isEmpty_nil, if_true]
    rcases stops with nothing | ⟨more, mark⟩
    · have finished : scanStep cursor = .finished := by rw [scanStep, nothing]
      rw [finished]
      exact .openEnd
    · obtain ⟨name, span, after, begins, step⟩ := scanStep_closingMark plain mark
      rw [step]
      exact .endTag begins span _

theorem scanFrom_plainContent {tag : String} (plain : isPlainTextTag tag = true) (fuel : Nat)
    (cursor : Cursor) : PlainContent (Begins tag) (scanFrom fuel (some tag) cursor) := by
  cases fuel with
  | zero => exact .empty .openEnd
  | succ fuel =>
    obtain ⟨whole, stops⟩ := scanPlainText_behind tag cursor
    cases content : (scanPlainText tag cursor).1 with
    | nil =>
      -- Without a text the round is the same as in markup.
      have same : scanFrom (fuel + 1) (some tag) cursor = scanFrom (fuel + 1) none cursor := by
        simp only [scanFrom, Option.elim_some, Option.elim_none, content, List.isEmpty_nil, if_true]
      rw [content, List.nil_append] at whole
      rw [same]
      rw [← whole] at stops
      exact .empty (scanFrom_closing plain stops (fuel + 1))
    | cons c others =>
      unfold scanFrom
      simp only [Option.elim_some, content, List.isEmpty_cons, Bool.false_eq_true, if_false]
      exact .text _ _ (scanFrom_closing plain stops fuel)

theorem scanFrom_keepsPlain (fuel : Nat) (plain : Option String) (cursor : Cursor) :
    KeepsPlain Begins (scanFrom fuel plain cursor) := by
  induction fuel generalizing plain cursor with
  | zero => exact trivial
  | succ fuel ih =>
    unfold scanFrom
    simp only
    split
    · split
      · exact trivial
      · exact ih none _
      · next token after step =>
        refine ⟨?_, ih _ after⟩
        intro tag opens
        have plain : isPlainTextTag tag = true := by
          unfold Token.plainTextTag? at opens
          split at opens
          · split at opens
            · next both =>
              cases opens
              exact (Bool.and_eq_true_iff.mp both).2
            · cases opens
          · cases opens
        rw [Option.mem_def.mp opens]
        exact scanFrom_plainContent plain fuel after
    · refine ⟨?_, ih none _⟩
      intro tag opens
      cases opens

/-- Behind a script, a style or a text area there is one text at most before a name that
begins with its tag. -/
theorem scan_keepsPlain (source : String) : KeepsPlain Begins (scan source) :=
  scanFrom_keepsPlain _ none (.ofSource source)

end Templating.Markup
