import Templating.Proofs.Grammar.Nesting
import Templating.Proofs.Text.Search
/-!
# Tokens take characters

A reader of one token gives back a part of its source, shorter by the token.
What the token was is told by the characters in front of the rest.
-/
set_option autoImplicit false

namespace Templating.Expression.Grammar

open Templating.Text

theorem skipBlanks_length_le (source : List Char) : (skipBlanks source).length ≤ source.length :=
  (List.dropWhile_suffix _).length_le

theorem skipBlanks_isEmpty (source : List Char) :
    (skipBlanks source).isEmpty = source.all isSeparatingBlank := by
  induction source with
  | nil => rfl
  | cons c others ih =>
    by_cases blank : isSeparatingBlank c = true
    · rw [skipBlanks, List.dropWhile_cons_of_pos blank, List.all_cons, blank, Bool.true_and]
      exact ih
    · rw [skipBlanks, List.dropWhile_cons_of_neg blank]
      simp [blank]

theorem whole_eq_some_iff {α : Type} (reader : Reader α) (code : String) (result : α) :
    whole? reader code = some result ↔
      ∃ rest, reader code.toList = some (result, rest) ∧ rest.all isSeparatingBlank = true := by
  unfold whole?
  cases reader code.toList with
  | none => simp
  | some entry =>
    obtain ⟨value, rest⟩ := entry
    simp only [skipBlanks_isEmpty, Option.some.injEq, Prod.mk.injEq]
    constructor
    · intro found
      split at found
      · next blank => exact ⟨rest, ⟨Option.some.inj found, rfl⟩, blank⟩
      · cases found
    · rintro ⟨rest, ⟨rfl, rfl⟩, blank⟩
      rw [if_pos blank]

theorem mark_eq_some_iff (mark : String) (source rest : List Char) :
    mark? mark source = some rest ↔ skipBlanks source = mark.toList ++ rest :=
  dropLeading_eq_some_iff _ _ _

theorem mark_length_lt {mark : String} (given : mark.toList ≠ []) {source rest : List Char}
    (found : mark? mark source = some rest) : rest.length < source.length := by
  have split := (mark_eq_some_iff mark source rest).mp found
  have bound := skipBlanks_length_le source
  have positive := List.length_pos_iff.mpr given
  simp only [split, List.length_append] at bound
  omega

theorem anyName_eq_some {source rest : List Char} {name : String}
    (found : anyName source = some (name, rest)) :
    ∃ c taken, isNameStart c = true ∧ (∀ d ∈ taken, isNameChar d = true) ∧
      name = String.ofList (c :: taken) ∧ skipBlanks source = c :: taken ++ rest := by
  unfold anyName at found
  split at found
  · cases found
  · next c others atStart =>
    split at found
    · next start =>
      simp only [Option.some.injEq, Prod.mk.injEq] at found
      obtain ⟨rfl, rfl⟩ := found
      refine ⟨c, others.takeWhile isNameChar, start, fun d held => List.mem_takeWhile_imp held, rfl, ?_⟩
      rw [atStart, List.cons_append, List.takeWhile_append_dropWhile]
    · cases found

theorem anyName_length_lt {source rest : List Char} {name : String}
    (found : anyName source = some (name, rest)) : rest.length < source.length := by
  obtain ⟨c, taken, -, -, -, split⟩ := anyName_eq_some found
  have bound := skipBlanks_length_le source
  simp only [split, List.length_append, List.length_cons] at bound
  omega

theorem textInside_eq_some {quote : Char} {source inside rest : List Char}
    (found : textInside quote source = some (inside, rest)) : source = inside ++ quote :: rest := by
  fun_induction textInside quote source generalizing inside rest with
  | case1 => cases found
  | case2 => cases found
  | case3 c others ih =>
    simp only [Option.map_eq_some_iff, Prod.mk.injEq] at found
    obtain ⟨⟨innerInside, innerRest⟩, inner, rfl, rfl⟩ := found
    simp [ih inner]
  | case4 others =>
    simp only [Option.some.injEq, Prod.mk.injEq] at found
    obtain ⟨rfl, rfl⟩ := found
    rfl
  | case5 c others _ _ _ ih =>
    simp only [Option.map_eq_some_iff, Prod.mk.injEq] at found
    obtain ⟨⟨innerInside, innerRest⟩, inner, rfl, rfl⟩ := found
    simp [ih inner]

theorem textLiteral_eq_some {source rest : List Char} {content : String}
    (found : textLiteral source = some (content, rest)) :
    ∃ quote inside, isQuote quote = true ∧ skipBlanks source = quote :: inside ++ quote :: rest := by
  unfold textLiteral at found
  split at found
  · cases found
  · next quote others atStart =>
    split at found
    · next isQuoted =>
      simp only [Option.map_eq_some_iff, Prod.mk.injEq] at found
      obtain ⟨⟨inside, behind⟩, inner, -, rfl⟩ := found
      refine ⟨quote, inside, ?_, ?_⟩
      · rcases isQuoted with rfl | rfl <;> rfl
      · rw [atStart, textInside_eq_some inner, List.cons_append]
    · cases found

theorem textLiteral_length_lt {source rest : List Char} {content : String}
    (found : textLiteral source = some (content, rest)) : rest.length < source.length := by
  obtain ⟨quote, inside, -, split⟩ := textLiteral_eq_some found
  have bound := skipBlanks_length_le source
  simp only [split, List.length_append, List.length_cons] at bound
  omega

theorem fraction_append (source : List Char) :
    (fraction source).1 ++ (fraction source).2 = source := by
  unfold fraction
  split
  · next rest =>
    simp only
    split
    · rfl
    · rw [List.cons_append, List.takeWhile_append_dropWhile]
  · rfl

theorem drop_takeWhile (accepts : Char → Bool) (source : List Char) :
    source.drop (source.takeWhile accepts).length = source.dropWhile accepts := by
  calc source.drop (source.takeWhile accepts).length
    _ = (source.takeWhile accepts ++ source.dropWhile accepts).drop
          (source.takeWhile accepts).length := by rw [List.takeWhile_append_dropWhile]
    _ = source.dropWhile accepts := List.drop_left

def isExponentMark (c : Char) : Bool := c == 'e' || c == 'E'

def isSign (c : Char) : Bool := c == '+' || c == '-'

theorem exponent_other {source : List Char} (other : ∀ e rest, source = e :: rest → isExponentMark e = false) :
    exponent source = ([], source) := by
  cases source with
  | nil => rfl
  | cons e rest =>
    have noMark := other e rest rfl
    simp only [isExponentMark, Bool.or_eq_false_iff, beq_eq_false_iff_ne] at noMark
    simp [exponent, noMark]

theorem exponent_signed {e sign : Char} (mark : isExponentMark e = true) (signed : isSign sign = true)
    (rest : List Char) :
    exponent (e :: sign :: rest) =
      if (rest.takeWhile isAsciiDigit).isEmpty then ([], e :: sign :: rest)
      else (e :: sign :: rest.takeWhile isAsciiDigit, rest.dropWhile isAsciiDigit) := by
  simp only [isExponentMark, isSign, Bool.or_eq_true, beq_iff_eq] at mark signed
  simp [exponent, mark, signed, Nat.add_comm 1, drop_takeWhile]

theorem exponent_unsigned {e : Char} (mark : isExponentMark e = true) {rest : List Char}
    (unsigned : ∀ c behind, rest = c :: behind → isSign c = false) :
    exponent (e :: rest) =
      if (rest.takeWhile isAsciiDigit).isEmpty then ([], e :: rest)
      else (e :: rest.takeWhile isAsciiDigit, rest.dropWhile isAsciiDigit) := by
  simp only [isExponentMark, Bool.or_eq_true, beq_iff_eq] at mark
  cases rest with
  | nil => simp [exponent]
  | cons c behind =>
    have noSign := unsigned c behind rfl
    simp only [isSign, Bool.or_eq_false_iff, beq_eq_false_iff_ne] at noSign
    simp [exponent, mark, noSign, drop_takeWhile]

theorem exponent_append (source : List Char) :
    (exponent source).1 ++ (exponent source).2 = source := by
  match source with
  | [] => rfl
  | e :: rest =>
    by_cases mark : isExponentMark e = true
    · match rest with
      | [] => simp [exponent]
      | sign :: behind =>
        by_cases signed : isSign sign = true
        · rw [exponent_signed mark signed]
          split
          · rfl
          · simp
        · rw [exponent_unsigned mark fun c others same => by
            obtain ⟨rfl, -⟩ := List.cons.inj same
            exact Bool.eq_false_iff.mpr signed]
          split
          · rfl
          · simp
    · rw [exponent_other fun c others same => by
        obtain ⟨rfl, -⟩ := List.cons.inj same
        exact Bool.eq_false_iff.mpr mark]
      rfl

theorem numberText_eq_some {source digits rest : List Char}
    (found : numberText source = some (digits, rest)) :
    digits ≠ [] ∧ skipBlanks source = digits ++ rest := by
  unfold numberText at found
  simp only at found
  split at found
  · cases found
  · next given =>
    simp only [Option.some.injEq, Prod.mk.injEq] at found
    obtain ⟨rfl, rfl⟩ := found
    constructor
    · intro none
      simp only [List.append_eq_nil_iff] at none
      simp [none.1.1, none.1.2] at given
    · rw [List.append_assoc, exponent_append, List.append_assoc, fraction_append,
        List.takeWhile_append_dropWhile]

theorem numberText_length_lt {source digits rest : List Char}
    (found : numberText source = some (digits, rest)) : rest.length < source.length := by
  obtain ⟨given, split⟩ := numberText_eq_some found
  have bound := skipBlanks_length_le source
  have positive := List.length_pos_iff.mpr given
  simp only [split, List.length_append] at bound
  omega

theorem afterText_suffix {quote : Char} {source rest : List Char}
    (found : afterText? quote source = some rest) : rest <:+ source := by
  fun_induction afterText? quote source with
  | case1 => cases found
  | case2 c others ih => exact (ih found).trans ((List.suffix_cons c others).trans (List.suffix_cons _ _))
  | case3 others =>
    cases found
    exact List.suffix_cons _ _
  | case4 c others _ _ ih => exact (ih found).trans (List.suffix_cons c others)

theorem afterPieces_suffix (ends : Char → Bool) (fuel : Nat) (source : List Char) :
    afterPieces ends fuel source <:+ source := by
  fun_induction afterPieces ends fuel source with
  | case1 => exact List.suffix_refl _
  | case2 => exact List.suffix_refl _
  | case3 ends fuel c rest group behind found inner outer =>
    -- What is left behind a text or a group is an end of what stands behind its first character.
    have left : behind <:+ rest := by
      unfold group at found
      split at found
      · exact afterText_suffix found
      split at found
      · split at found
        · next d others atEnd =>
          split at found
          · cases found
            rw [atEnd] at inner
            exact (List.suffix_cons d _).trans inner
          · cases found
        · cases found
      · cases found
    exact outer.trans (left.trans (List.suffix_cons c rest))
  | case4 => exact List.suffix_refl _
  | case5 ends fuel c rest group none goesOn inner outer => exact outer.trans (List.suffix_cons c rest)

theorem listenerSource_eq_some {source rest : List Char} {text : String}
    (found : listenerSource source = some (text, rest)) :
    ∃ taken, taken ≠ [] ∧ skipBlanks source = taken ++ rest := by
  unfold listenerSource at found
  simp only at found
  split at found
  · cases found
  · next given =>
    simp only [Option.some.injEq, Prod.mk.injEq] at found
    obtain ⟨-, rfl⟩ := found
    obtain ⟨taken, split⟩ :=
      afterPieces_suffix endsListener (skipBlanks source).length (skipBlanks source)
    generalize afterPieces endsListener _ (skipBlanks source) = rest at split given ⊢
    refine ⟨taken, ?_, split.symm⟩
    rintro rfl
    rw [← split] at given
    simp at given

theorem listenerSource_length_lt {source rest : List Char} {text : String}
    (found : listenerSource source = some (text, rest)) : rest.length < source.length := by
  obtain ⟨taken, given, split⟩ := listenerSource_eq_some found
  have bound := skipBlanks_length_le source
  have positive := List.length_pos_iff.mpr given
  simp only [split, List.length_append] at bound
  omega

end Templating.Expression.Grammar
