import Mathlib.Data.List.TakeWhile
import Templating.Proofs.Text.Offsets
import Templating.Text.Blank
/-!
# Blanks around a text

Trimming takes blanks from both ends of a text and nothing from inside, so that spans of
what is left are spans of the whole, moved by the blanks in front.
-/
set_option autoImplicit false

namespace Templating.Text

/-- A text is its leading blanks, what trimming leaves of it, and further blanks. -/
theorem trim_split (source : List Char) : ∃ behind,
    source = source.takeWhile isBlank ++ trim source ++ behind ∧ behind.all isBlank = true := by
  refine ⟨((trimStart source).reverse.takeWhile isBlank).reverse, ?_, ?_⟩
  · have ended (content : List Char) :
        content = trimEnd content ++ (content.reverse.takeWhile isBlank).reverse := by
      rw [trimEnd, ← List.reverse_append, List.takeWhile_append_dropWhile, List.reverse_reverse]
    rw [List.append_assoc, trim, ← ended, trimStart, List.takeWhile_append_dropWhile]
  · rw [List.all_reverse]
    exact List.all_takeWhile

theorem trimmed_split (source : String) : ∃ behind, source.toList =
    source.toList.takeWhile isBlank ++ (trimmed source).toList ++ behind := by
  obtain ⟨behind, whole, -⟩ := trim_split source.toList
  exact ⟨behind, by rwa [trimmed, String.toList_ofList]⟩

theorem trim_toList {source : String} (same : trimmed source = source) :
    trim source.toList = source.toList := by
  rw [← String.toList_ofList (l := trim source.toList), ← trimmed, same]

theorem trimEnd_cases (source : List Char) :
    trimEnd source = [] ∨ ∃ before c, trimEnd source = before ++ [c] ∧ isBlank c = false := by
  have first := List.head?_dropWhile_not isBlank source.reverse
  unfold trimEnd
  cases left : source.reverse.dropWhile isBlank with
  | nil => exact .inl rfl
  | cons c others =>
    rw [left] at first
    exact .inr ⟨others.reverse, c, List.reverse_cons, by simpa using first⟩

theorem trimEnd_concat (before : List Char) {c : Char} (visible : isBlank c = false) :
    trimEnd (before ++ [c]) = before ++ [c] := by
  rw [trimEnd, List.reverse_append, List.reverse_singleton, List.singleton_append,
    List.dropWhile_cons_of_neg (by simp [visible]), List.reverse_cons, List.reverse_reverse]

theorem trim_around (before after : List Char) {c : Char} (visible : isBlank c = false) :
    trim (before ++ c :: after) = trimStart before ++ c :: trimEnd after := by
  have stops : isBlank c ≠ true := by simp [visible]
  have front : trimStart (before ++ c :: after) = trimStart before ++ c :: after := by
    unfold trimStart
    rw [List.dropWhile_append]
    split
    · next empty => rw [List.isEmpty_iff.mp empty, List.dropWhile_cons_of_neg stops, List.nil_append]
    · rfl
  rw [trim, front, trimEnd, trimEnd, List.reverse_append, List.reverse_cons, List.append_assoc,
    List.dropWhile_append]
  split
  · next empty =>
    rw [List.isEmpty_iff.mp empty, List.singleton_append, List.dropWhile_cons_of_neg stops]
    simp
  · simp

section Padded

variable {source blanks : List Char} (blank : ∀ c ∈ blanks, isBlank c = true)

include blank

theorem trim_blanks_append : trim (blanks ++ source) = trim source := by
  rw [trim, trimStart, List.dropWhile_append_of_pos blank, trim, trimStart]

theorem trimEnd_append_blanks : trimEnd (source ++ blanks) = trimEnd source := by
  have reversed : ∀ c ∈ blanks.reverse, isBlank c = true :=
    fun c held => blank c (List.mem_reverse.mp held)
  rw [trimEnd, List.reverse_append, List.dropWhile_append_of_pos reversed, trimEnd]

theorem trim_append_blanks : trim (source ++ blanks) = trim source := by
  rw [trim, trimStart, List.dropWhile_append, trim, trimStart]
  split
  · next empty =>
    have gone : blanks.dropWhile isBlank = [] := List.dropWhile_eq_nil_iff.mpr blank
    rw [gone, List.isEmpty_iff.mp empty]
  · exact trimEnd_append_blanks blank

end Padded

theorem trim_trim (source : List Char) : trim (trim source) = trim source := by
  obtain ⟨behind, whole, blank⟩ := trim_split source
  have again := congrArg trim whole
  rw [trim_append_blanks (List.all_eq_true.mp blank),
    trim_blanks_append (List.all_eq_true.mp List.all_takeWhile)] at again
  exact again.symm

theorem trimmed_padded {before behind : String} (blankBefore : allBlank before = true)
    (blankBehind : allBlank behind = true) (source : String) :
    trimmed (before ++ source ++ behind) = trimmed source := by
  rw [trimmed, String.toList_append, String.toList_append,
    trim_append_blanks (List.all_eq_true.mp blankBehind),
    trim_blanks_append (List.all_eq_true.mp blankBefore), trimmed]

theorem leading_padded {before behind source : String} (blankBefore : allBlank before = true)
    (visible : allBlank source = false) :
    byteLength ((before ++ source ++ behind).toList.takeWhile isBlank) =
      byteLength before.toList + byteLength (source.toList.takeWhile isBlank) := by
  have ends : (source.toList.takeWhile isBlank).length ≠ source.toList.length := by
    intro same
    have whole := (List.takeWhile_prefix isBlank).eq_of_length same
    have blank : allBlank source = true := List.all_eq_true.mpr (List.takeWhile_eq_self_iff.mp whole)
    rw [blank] at visible
    cases visible
  rw [String.toList_append, String.toList_append, List.append_assoc,
    List.takeWhile_append_of_pos (List.all_eq_true.mp blankBefore), List.takeWhile_append,
    if_neg ends, byteLength_append]

theorem trimmed_blank {source : String} (blank : allBlank source = true) : trimmed source = "" := by
  have gone : source.toList.dropWhile isBlank = [] :=
    List.dropWhile_eq_nil_iff.mpr (List.all_eq_true.mp blank)
  rw [trimmed, trim, trimStart, gone]
  rfl

theorem Span.IsWithin.shift {source inner : String} {before behind : List Char}
    (split : source.toList = before ++ inner.toList ++ behind) {span : Span}
    (within : span.IsWithin inner) : (span.shift (byteLength before)).IsWithin source := by
  have moved {offset : Nat} (boundary : IsBoundary inner offset) :
      IsBoundary source (offset + byteLength before) := by
    obtain ⟨front, rest, whole, rfl⟩ := isBoundary_iff.mp boundary
    refine isBoundary_iff.mpr ⟨before ++ front, rest ++ behind, ?_, ?_⟩
    · rw [split, whole]
      simp only [List.append_assoc]
    · rw [byteLength_append, Nat.add_comm]
  exact ⟨Nat.add_le_add_right within.ordered _, moved within.start, moved within.stop⟩

end Templating.Text
