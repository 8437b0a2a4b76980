import Templating.Expression.Grammar
/-!
# Balanced source

`Closes expected source` says that reading `source` as code closes the brackets
in `expected`, innermost first, and leaves no quote or bracket open.  A
character that is no quote and no bracket changes nothing; a text between quotes
is passed as a whole.
-/
set_option autoImplicit false

namespace Templating.Expression

attribute [local simp] imbalanceFrom

def isPlain (c : Char) : Bool := !isQuote c && (closerOf? c).isNone && !Grammar.endsNested c

/-- The source closes the brackets in `expected` and whatever it opens. -/
def Closes (expected source : List Char) : Prop := imbalanceFrom expected .code source = none

/-- The source closes the text in which it starts, and then as `Closes`. -/
def ClosesText (quote : Char) (expected source : List Char) : Prop :=
  imbalanceFrom expected (.quoted quote false) source = none

theorem isQuote_of_opening {c closer : Char} (opening : closerOf? c = some closer) :
    isQuote c = false := by
  unfold closerOf? at opening
  split at opening
  · next h => subst h; rfl
  · split at opening
    · next h => subst h; rfl
    · split at opening
      · next h => subst h; rfl
      · cases opening

theorem closer_cases {c : Char} (closer : Grammar.endsNested c = true) :
    c = ')' ∨ c = ']' ∨ c = '\x7d' := by
  simpa [Grammar.endsNested, or_assoc] using closer

theorem isQuote_of_closer {c : Char} (closer : Grammar.endsNested c = true) : isQuote c = false := by
  rcases closer_cases closer with rfl | rfl | rfl <;> rfl

theorem closerOf_of_closer {c : Char} (closer : Grammar.endsNested c = true) :
    closerOf? c = none := by
  rcases closer_cases closer with rfl | rfl | rfl <;> rfl

theorem isQuote_of_plain {c : Char} (plain : isPlain c = true) : isQuote c = false := by
  simp only [isPlain, Bool.and_eq_true, Bool.not_eq_true'] at plain
  exact plain.1.1

theorem closerOf_of_plain {c : Char} (plain : isPlain c = true) : closerOf? c = none := by
  simp only [isPlain, Bool.and_eq_true, Option.isNone_iff_eq_none] at plain
  exact plain.1.2

theorem closes_nil_iff (expected : List Char) : Closes expected [] ↔ expected = [] := by
  cases expected <;> simp [Closes]

theorem closes_plain_iff {c : Char} (plain : isPlain c) (expected rest : List Char) :
    Closes expected (c :: rest) ↔ Closes expected rest := by
  simp only [isPlain, Grammar.endsNested, Bool.and_eq_true, Bool.not_eq_true', Bool.or_eq_false_iff,
    Option.isNone_iff_eq_none, beq_eq_false_iff_ne] at plain
  obtain ⟨⟨noQuote, noOpening⟩, ⟨noRound, noSquare⟩, noCurly⟩ := plain
  simp [Closes, noQuote, noOpening, noRound, noSquare, noCurly]

theorem closes_plain_append_iff {taken : List Char} (plain : ∀ c ∈ taken, isPlain c)
    (expected rest : List Char) : Closes expected (taken ++ rest) ↔ Closes expected rest := by
  induction taken with
  | nil => rfl
  | cons c others ih =>
    rw [List.cons_append, closes_plain_iff (plain c List.mem_cons_self)]
    exact ih fun d held => plain d (List.mem_cons_of_mem c held)

theorem closes_opening_iff {c closer : Char} (opening : closerOf? c = some closer)
    (expected rest : List Char) :
    Closes expected (c :: rest) ↔ Closes (closer :: expected) rest := by
  simp [Closes, isQuote_of_opening opening, opening]

theorem closes_closer_iff {c : Char} (closer : Grammar.endsNested c = true)
    (expected rest : List Char) :
    Closes expected (c :: rest) ↔ ∃ outer, expected = c :: outer ∧ Closes outer rest := by
  have shape := closer_cases closer
  have noQuote := isQuote_of_closer closer
  have noOpening := closerOf_of_closer closer
  cases expected with
  | nil => simp [Closes, noQuote, noOpening, shape]
  | cons first outer =>
    by_cases same : first = c
    · simp [Closes, noQuote, noOpening, shape, same]
    · simp [Closes, noQuote, noOpening, shape, same]

theorem closes_quote_iff {c : Char} (quote : isQuote c) (expected rest : List Char) :
    Closes expected (c :: rest) ↔ ClosesText c expected rest := by
  simp [Closes, ClosesText, quote]

theorem char_cases (c : Char) :
    isQuote c = true ∨ (∃ closer, closerOf? c = some closer) ∨ Grammar.endsNested c = true ∨
      isPlain c = true := by
  by_cases quote : isQuote c
  · exact .inl quote
  · cases opening : closerOf? c with
    | some closer => exact .inr (.inl ⟨closer, rfl⟩)
    | none =>
      by_cases closer : Grammar.endsNested c
      · exact .inr (.inr (.inl closer))
      · exact .inr (.inr (.inr (by simp [isPlain, quote, opening, closer])))

def specialChars : List Char :=
  ['\x27', '\x22', '\x60', '(', '[', '\x7b', ')', ']', '\x7d']

theorem isPlain_of_not_special {c : Char} (other : c ∉ specialChars) : isPlain c = true := by
  simp only [specialChars, List.mem_cons, List.not_mem_nil, or_false, not_or] at other
  simp [isPlain, isQuote, closerOf?, Grammar.endsNested, other]

theorem isPlain_of_class (accepts : Char → Bool)
    (none : specialChars.all (fun c => !accepts c) = true) {c : Char} (accepted : accepts c = true) :
    isPlain c = true := by
  refine isPlain_of_not_special fun special => ?_
  have refused := List.all_eq_true.mp none c special
  rw [accepted] at refused
  cases refused

theorem closesText_cons_iff {c quote : Char} (inside : c ≠ quote) (noEscape : c ≠ '\\')
    (expected rest : List Char) :
    ClosesText quote expected (c :: rest) ↔
      ¬(c = '\n' ∧ quote ≠ '\x60') ∧ ClosesText quote expected rest := by
  unfold ClosesText
  rw [imbalanceFrom, if_neg noEscape, if_neg inside]
  by_cases broken : c = '\n' ∧ quote ≠ '\x60'
  · simp [broken]
  · simp [broken]

theorem closesText_escape_iff (c quote : Char) (expected rest : List Char) :
    ClosesText quote expected ('\\' :: c :: rest) ↔ ClosesText quote expected rest := by
  simp [ClosesText]

theorem closesText_end_iff {quote : Char} (noEscape : quote ≠ '\\') (expected rest : List Char) :
    ClosesText quote expected (quote :: rest) ↔ Closes expected rest := by
  simp [ClosesText, Closes, noEscape]

theorem not_closesText_nil (quote : Char) (expected : List Char) : ¬ ClosesText quote expected [] := by
  simp [ClosesText]

theorem not_closesText_escape (quote : Char) (expected : List Char) :
    ¬ ClosesText quote expected ['\\'] := by
  simp [ClosesText]

theorem quote_ne_escape {quote : Char} (isQuoted : isQuote quote) : quote ≠ '\\' := by
  rintro rfl
  exact absurd isQuoted (by decide)

end Templating.Expression
