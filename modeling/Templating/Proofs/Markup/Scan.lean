import Mathlib.Data.List.TakeWhile
import Templating.Markup.Scan
/-!
# Tags that are scanned

The name of a start tag begins with a letter and holds letters, digits and a few
marks, and so neither a quote nor a backslash.
-/
set_option autoImplicit false

namespace Templating.Markup

open Templating.Text

structure IsTagName (name : String) : Prop where
  nonempty : name ≠ ""
  letters : ∀ c ∈ name.toList, isTagNameChar c = true

instance (name : String) : Decidable (IsTagName name) :=
  decidable_of_iff (name ≠ "" ∧ name.toList.all isTagNameChar = true)
    ⟨fun both => ⟨both.1, List.all_eq_true.mp both.2⟩,
      fun named => ⟨named.nonempty, List.all_eq_true.mpr named.letters⟩⟩

def Token.IsNamed : Token → Prop
  | .startTag name _ _ _ => IsTagName name
  | _ => True

theorem scanText_isNamed (cursor : Cursor) : (scanText cursor).1.IsNamed := trivial

theorem letter_of_opensTag {rest : List Char} (opens : opensTag rest = true)
    (noDeclaration : startsWith ['<', '!'] rest = false)
    (noEnd : startsWith ['<', '/'] rest = false) :
    ∃ c others, rest.drop 1 = c :: others ∧ isAsciiLetter c = true := by
  unfold opensTag at opens
  split at opens
  · simp [startsWith, dropLeading?] at noEnd
  · next c others _ =>
    refine ⟨c, others, rfl, ?_⟩
    rcases Bool.or_eq_true_iff.mp opens with letter | mark
    · exact letter
    · rw [eq_of_beq mark] at noDeclaration
      simp [startsWith, dropLeading?] at noDeclaration
  · cases opens

theorem isTagNameChar_of_letter {c : Char} (letter : isAsciiLetter c = true) :
    isTagNameChar c = true := by
  simp [isTagNameChar, isAsciiWord, letter]

theorem scanStartTag_isNamed {cursor : Cursor} {c : Char} {others : List Char}
    (begins : cursor.rest.drop 1 = c :: others) (letter : isAsciiLetter c = true) :
    (scanStartTag cursor).1.IsNamed := by
  have first : cursor.next.rest = c :: others := begins
  unfold scanStartTag
  simp only
  split
  · refine ⟨fun empty => ?_, fun d held => ?_⟩
    · rw [String.ofList_eq_empty_iff, first, List.takeWhile_cons_of_pos (isTagNameChar_of_letter letter)] at empty
      cases empty
    · rw [String.toList_ofList] at held
      exact List.mem_takeWhile_imp held
  · trivial

theorem skipDeclaration_isNamed {cursor after : Cursor} {opening closing : List Char} {token : Token}
    (step : skipDeclaration cursor opening closing = .emitted token after) : token.IsNamed := by
  unfold skipDeclaration at step
  split at step
  · cases step
  · cases step
    exact scanText_isNamed cursor

theorem scanComment_isNamed {cursor after : Cursor} {token : Token}
    (step : scanComment cursor = .emitted token after) : token.IsNamed := by
  unfold scanComment at step
  split at step
  · cases step
    trivial
  · cases step
    exact scanText_isNamed cursor

theorem scanStep_isNamed {cursor after : Cursor} {token : Token}
    (step : scanStep cursor = .emitted token after) : token.IsNamed := by
  unfold scanStep at step
  split at step
  · cases step
  · split at step
    · cases step
      exact scanText_isNamed cursor
    · next opens =>
      split at step
      · exact scanComment_isNamed step
      · split at step
        · exact skipDeclaration_isNamed step
        · split at step
          · exact skipDeclaration_isNamed step
          · next noDeclaration =>
            split at step
            · cases step
              trivial
            · next noEnd =>
              cases step
              obtain ⟨c, others, begins, letter⟩ := letter_of_opensTag (by simpa using opens)
                (Bool.eq_false_iff.mpr noDeclaration) (Bool.eq_false_iff.mpr noEnd)
              exact scanStartTag_isNamed begins letter

theorem scanFrom_isNamed (fuel : Nat) (plain : Option String) (cursor : Cursor) :
    ∀ token ∈ scanFrom fuel plain cursor, token.IsNamed := by
  induction fuel generalizing plain cursor with
  | zero => exact fun _ held => by cases held
  | succ fuel ih =>
    intro token held
    unfold scanFrom at held
    simp only at held
    split at held
    · split at held
      · cases held
      · exact ih _ _ token held
      · next emitted after step =>
        rcases List.mem_cons.mp held with rfl | held
        · exact scanStep_isNamed step
        · exact ih _ _ token held
    · rcases List.mem_cons.mp held with rfl | held
      · trivial
      · exact ih _ _ token held

theorem scan_isNamed (source : String) : ∀ token ∈ scan source, token.IsNamed :=
  scanFrom_isNamed _ _ _

theorem IsTagName.unquoted {name : String} (named : IsTagName name) :
    ∀ c ∈ name.toList, c ≠ '\\' ∧ c ≠ '\x27' := by
  intro c held
  have accepted := named.letters c held
  constructor <;> rintro rfl <;> exact absurd accepted (by decide)

end Templating.Markup
