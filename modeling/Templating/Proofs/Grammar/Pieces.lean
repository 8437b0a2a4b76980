import Templating.Proofs.Grammar.Operands
/-!
# Runs of pieces

Balanced source is a sequence of texts, bracketed groups and plain characters.
The reader of listeners passes it as a whole, unless a comma stands outside all
brackets and texts.
-/
set_option autoImplicit false

namespace Templating.Expression.Grammar

open Templating.Text

inductive Pieces : List Char → Prop where
  | nil : Pieces []
  | text {c : Char} {content behind : List Char} (quoted : isQuote c = true)
      (ends : ∀ rest, afterText? c (content ++ rest) = some rest)
      (closes : ∀ expected rest, ClosesText c expected (content ++ rest) ↔ Closes expected rest)
      (others : Pieces behind) :
    Pieces (c :: content ++ behind)
  | group {c closer : Char} {inside behind : List Char} (opening : closerOf? c = some closer)
      (isCloser : endsNested closer = true) (within : Pieces inside) (others : Pieces behind) :
    Pieces (c :: inside ++ closer :: behind)
  | plain {c : Char} {behind : List Char} (isPlain : isPlain c = true) (others : Pieces behind) :
    Pieces (c :: behind)

theorem text_of_closesText {quote : Char} (quoted : isQuote quote = true) {expected source : List Char}
    (balanced : ClosesText quote expected source) :
    ∃ content behind, source = content ++ behind ∧ Closes expected behind ∧ behind.length < source.length ∧
      (∀ rest, afterText? quote (content ++ rest) = some rest) ∧
      ∀ outer rest, ClosesText quote outer (content ++ rest) ↔ Closes outer rest := by
  have noEscape := quote_ne_escape quoted
  fun_induction afterText? quote source with
  | case1 => exact absurd balanced (not_closesText_nil quote expected)
  | case2 c others ih =>
    obtain ⟨content, behind, split, closes, shorter, ends, same⟩ :=
      ih ((closesText_escape_iff c quote expected others).mp balanced)
    refine ⟨'\\' :: c :: content, behind, by rw [split]; rfl, closes, ?_, fun rest => ?_,
      fun outer rest => ?_⟩
    · simp only [List.length_cons]
      omega
    · exact ends rest
    · exact (closesText_escape_iff c quote outer _).trans (same outer rest)
  | case3 others =>
    refine ⟨[quote], others, rfl, (closesText_end_iff noEscape expected others).mp balanced,
      by simp, fun rest => afterText_end noEscape rest,
      fun outer rest => closesText_end_iff noEscape outer rest⟩
  | case4 c others escape differs ih =>
    have plain : c ≠ '\\' := by
      rintro rfl
      cases others with
      | nil => exact not_closesText_escape quote expected balanced
      | cons d more => exact escape d more rfl rfl
    obtain ⟨unbroken, inside⟩ := (closesText_cons_iff differs plain expected others).mp balanced
    obtain ⟨content, behind, split, closes, shorter, ends, same⟩ := ih inside
    refine ⟨c :: content, behind, by rw [split]; rfl, closes, ?_, fun rest => ?_, fun outer rest => ?_⟩
    · simp only [List.length_cons]
      omega
    · rw [List.cons_append, afterText_cons differs plain, ends]
    · rw [List.cons_append, closesText_cons_iff differs plain, same]
      exact and_iff_right unbroken

theorem pieces_of_closes : ∀ (bound : Nat) (expected source : List Char), source.length ≤ bound →
    Closes expected source →
    ∃ inside behind, source = inside ++ behind ∧ Pieces inside ∧
      (expected = [] ∧ behind = [] ∨
        ∃ closer outer rest, expected = closer :: outer ∧ behind = closer :: rest ∧
          endsNested closer = true ∧ Closes outer rest ∧ rest.length < source.length) := by
  -- What follows a group is cut only behind the closer, hence the bound on the length.
  intro bound
  induction bound with
  | zero =>
    intro expected source enough balanced
    obtain rfl := List.eq_nil_of_length_eq_zero (Nat.le_zero.mp enough)
    exact ⟨[], [], rfl, .nil, .inl ⟨(closes_nil_iff expected).mp balanced, rfl⟩⟩
  | succ bound ih =>
    intro expected source enough balanced
    cases source with
    | nil => exact ⟨[], [], rfl, .nil, .inl ⟨(closes_nil_iff expected).mp balanced, rfl⟩⟩
    | cons c others =>
      rw [List.length_cons, Nat.add_le_add_iff_right] at enough
      obtain quoted | ⟨closer, opening⟩ | isCloser | plain := char_cases c
      · obtain ⟨content, behind, rfl, closes, shorter, ends, same⟩ :=
          text_of_closesText quoted ((closes_quote_iff quoted expected others).mp balanced)
        obtain ⟨inside, rest, rfl, pieces, stop⟩ := ih expected behind (by omega) closes
        refine ⟨c :: content ++ inside, rest, by simp, .text quoted ends same pieces, ?_⟩
        refine stop.imp_right ?_
        rintro ⟨closer, outer, last, same, start, isCloser, closed, less⟩
        exact ⟨closer, outer, last, same, start, isCloser, closed, by simp only [List.length_cons]; omega⟩
      · obtain ⟨within, behind, rfl, pieces, stop⟩ :=
          ih (closer :: expected) others enough ((closes_opening_iff opening expected others).mp balanced)
        obtain ⟨impossible, -⟩ | ⟨first, outer, rest, same, rfl, isCloser, closed, less⟩ := stop
        · cases impossible
        · obtain ⟨rfl, rfl⟩ := List.cons.inj same
          obtain ⟨inside, last, rfl, piecesBehind, stop⟩ := ih expected rest (by omega) closed
          refine ⟨c :: within ++ closer :: inside, last, by simp, .group opening isCloser pieces
            piecesBehind, ?_⟩
          refine stop.imp_right ?_
          rintro ⟨ender, outer, final, same, start, isEnd, closedBehind, lessBehind⟩
          exact ⟨ender, outer, final, same, start, isEnd, closedBehind,
            by simp only [List.length_cons]; omega⟩
      · obtain ⟨outer, rfl, closed⟩ := (closes_closer_iff isCloser expected others).mp balanced
        exact ⟨[], c :: others, rfl, .nil, .inr ⟨c, outer, others, rfl, rfl, isCloser, closed,
          by simp⟩⟩
      · obtain ⟨inside, behind, rfl, pieces, stop⟩ :=
          ih expected others enough ((closes_plain_iff plain expected others).mp balanced)
        refine ⟨c :: inside, behind, rfl, .plain plain pieces, ?_⟩
        refine stop.imp_right ?_
        rintro ⟨closer, outer, last, same, start, isCloser, closed, less⟩
        exact ⟨closer, outer, last, same, start, isCloser, closed, by simp only [List.length_cons]; omega⟩

theorem Pieces.ofCloses {source : List Char} (balanced : Closes [] source) : Pieces source := by
  obtain ⟨inside, behind, rfl, pieces, stop⟩ :=
    pieces_of_closes source.length [] source (Nat.le_refl _) balanced
  rcases stop with ⟨-, rfl⟩ | ⟨_, _, _, impossible, -⟩
  · rwa [List.append_nil]
  · cases impossible

/-! ## Passing pieces -/

/-- The run goes on behind the code, whatever stands there. -/
def Passes (ends : Char → Bool) (code : List Char) : Prop :=
  ∀ fuel rest, (code ++ rest).length ≤ fuel →
    ∃ left, rest.length ≤ left ∧ afterPieces ends fuel (code ++ rest) = afterPieces ends left rest

theorem Passes.nil (ends : Char → Bool) : Passes ends [] := fun fuel _ enough =>
  ⟨fuel, enough, rfl⟩

theorem Passes.append {ends : Char → Bool} {first second : List Char} (passes : Passes ends first)
    (secondPasses : Passes ends second) : Passes ends (first ++ second) := by
  intro fuel rest enough
  rw [List.append_assoc] at enough ⊢
  obtain ⟨left, leftEnough, read⟩ := passes fuel (second ++ rest) enough
  obtain ⟨final, finalEnough, readThen⟩ := secondPasses left rest leftEnough
  exact ⟨final, finalEnough, read.trans readThen⟩

theorem Passes.plain {ends : Char → Bool} {c : Char} (isPlain : isPlain c = true)
    (goesOn : ends c = false) : Passes ends [c] := by
  intro fuel rest enough
  cases fuel with
  | zero => simp at enough
  | succ fuel =>
    refine ⟨fuel, by simpa using enough, ?_⟩
    rw [List.singleton_append, afterPieces_single (isQuote_of_plain isPlain) (closerOf_of_plain isPlain),
      if_neg (by simp [goesOn])]

theorem Passes.text (ends : Char → Bool) {c : Char} (quoted : isQuote c = true) {content : List Char}
    (closes : ∀ rest, afterText? c (content ++ rest) = some rest) : Passes ends (c :: content) := by
  intro fuel rest enough
  cases fuel with
  | zero => simp at enough
  | succ fuel =>
    refine ⟨fuel, ?_, ?_⟩
    · simp only [List.cons_append, List.length_cons, List.length_append] at enough
      omega
    · rw [List.cons_append, afterPieces_text quoted (closes rest)]

theorem Passes.group (ends : Char → Bool) {c closer : Char} (opening : closerOf? c = some closer)
    (isCloser : endsNested closer = true) {inside : List Char} (passes : Passes endsNested inside) :
    Passes ends (c :: inside ++ [closer]) := by
  intro fuel rest enough
  cases fuel with
  | zero => simp at enough
  | succ fuel =>
    simp only [List.cons_append, List.append_assoc, List.nil_append, List.length_cons,
      List.length_append] at enough ⊢
    obtain ⟨left, leftEnough, read⟩ := passes fuel (closer :: rest) (by simp; omega)
    obtain ⟨left, rfl⟩ : ∃ before, left = before + 1 := by
      cases left with
      | zero => simp at leftEnough
      | succ before => exact ⟨before, rfl⟩
    rw [afterPieces_single (isQuote_of_closer isCloser) (closerOf_of_closer isCloser),
      if_pos isCloser] at read
    exact ⟨fuel, by omega, afterPieces_group opening read ends⟩

/-- Between brackets every balanced source is passed. -/
theorem Pieces.passes {source : List Char} (pieces : Pieces source) : Passes endsNested source := by
  induction pieces with
  | nil => exact .nil endsNested
  | text quoted closes _ _ ih => exact (Passes.text endsNested quoted closes).append ih
  | @group c closer inside behind opening isCloser _ _ within ih =>
    have split : c :: inside ++ closer :: behind = (c :: inside ++ [closer]) ++ behind := by simp
    rw [split]
    exact (Passes.group endsNested opening isCloser within).append ih
  | @plain c behind isPlain _ ih =>
    have goesOn : endsNested c = false := by
      simp only [Expression.isPlain, Bool.and_eq_true, Bool.not_eq_true'] at isPlain
      exact isPlain.2
    exact (Passes.plain isPlain goesOn).append ih

/-- The source has no comma outside all brackets and texts. -/
def isUnbroken (source : List Char) : Bool := (afterPieces endsListener source.length source).isEmpty

theorem Pieces.passesUnbroken {source : List Char} (pieces : Pieces source) : ∀ fuel,
    source.length ≤ fuel → (afterPieces endsListener fuel source).isEmpty = true →
    Passes endsListener source := by
  induction pieces with
  | nil => exact fun _ _ _ => .nil endsListener
  | @text c content behind quoted closes _ _ ih =>
    intro fuel enough unbroken
    have first := Passes.text endsListener quoted closes
    obtain ⟨left, leftEnough, read⟩ := first fuel behind enough
    exact first.append (ih left leftEnough (read ▸ unbroken))
  | @group c closer inside behind opening isCloser within _ _ ih =>
    intro fuel enough unbroken
    have split : c :: inside ++ closer :: behind = (c :: inside ++ [closer]) ++ behind := by simp
    have first := Passes.group endsListener opening isCloser within.passes
    rw [split] at enough unbroken ⊢
    obtain ⟨left, leftEnough, read⟩ := first fuel behind enough
    exact first.append (ih left leftEnough (read ▸ unbroken))
  | @plain c behind isPlain _ ih =>
    intro fuel enough unbroken
    cases fuel with
    | zero => simp at enough
    | succ fuel =>
      rw [afterPieces_single (isQuote_of_plain isPlain) (closerOf_of_plain isPlain)] at unbroken
      cases stops : endsListener c with
      | true => simp [stops] at unbroken
      | false =>
        rw [stops, if_neg (by simp)] at unbroken
        exact (Passes.plain isPlain stops).append (ih fuel (by simpa using enough) unbroken)

theorem passes_of_isUnbroken {source : List Char} (balanced : Closes [] source)
    (unbroken : isUnbroken source = true) : Passes endsListener source :=
  (Pieces.ofCloses balanced).passesUnbroken source.length (Nat.le_refl _) unbroken

theorem Passes.reads {c : Char} {others : List Char} (visible : isSeparatingBlank c = false)
    (passes : Passes endsListener (c :: others)) :
    Reads listenerSource endsListener (c :: others) (String.ofList (trim (c :: others))) := by
  intro d tail ends
  refine ⟨[], rfl, ?_⟩
  have start : skipBlanks (c :: others ++ d :: tail) = c :: others ++ d :: tail := skipBlanks_cons visible _
  obtain ⟨left, enough, read⟩ := passes (c :: others ++ d :: tail).length (d :: tail) (Nat.le_refl _)
  have stop : afterPieces endsListener left (d :: tail) = d :: tail := by
    cases left with
    | zero => simp at enough
    | succ left =>
      have noQuote : isQuote d = false ∧ closerOf? d = none := by
        rcases endsListener_cases ends with rfl | rfl | rfl | rfl <;> exact ⟨rfl, rfl⟩
      rw [afterPieces_single noQuote.1 noQuote.2, if_pos ends]
  have taken : (c :: others ++ d :: tail).length - (d :: tail).length = (c :: others).length := by
    rw [List.length_append, Nat.add_sub_cancel]
  simp only [listenerSource, start, read, stop, taken, List.take_left', List.isEmpty_cons,
    Bool.false_eq_true, if_false, List.nil_append]

end Templating.Expression.Grammar
