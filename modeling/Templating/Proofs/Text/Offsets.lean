import Mathlib.Data.List.Basic
import Templating.Text.Span
/-!
# Offsets between characters

A byte offset is a boundary where it does not fall into a character.  The
boundaries of a text are the byte lengths of its fronts, so that whatever lies
between two of them is a text again.
-/
set_option autoImplicit false

namespace Templating.Text

theorem byteLength_eq (source : List Char) :
    byteLength source = (String.ofList source).utf8ByteSize := by
  induction source with
  | nil => rfl
  | cons c rest ih =>
    rw [byteLength, ih, ← List.singleton_append, String.ofList_append, String.utf8ByteSize_append]
    simp

theorem byteLength_toList (source : String) : byteLength source.toList = source.utf8ByteSize := by
  rw [byteLength_eq, String.ofList_toList]

theorem byteLength_pos {source : List Char} (nonempty : source ≠ []) : 0 < byteLength source := by
  cases source with
  | nil => exact absurd rfl nonempty
  | cons c rest =>
    have size := c.utf8Size_pos
    rw [byteLength]
    omega

theorem length_le_byteLength (source : List Char) : source.length ≤ byteLength source := by
  induction source with
  | nil => exact Nat.le_refl _
  | cons c rest ih =>
    have size := c.utf8Size_pos
    rw [List.length_cons, byteLength]
    omega

/-- The offset is at an end of the text, or between two of its characters. -/
def IsBoundary (source : String) (offset : Nat) : Prop :=
  String.Pos.Raw.IsValid source ⟨offset⟩

theorem isBoundary_iff {source : String} {offset : Nat} :
    IsBoundary source offset ↔
      ∃ before behind, source.toList = before ++ behind ∧ offset = byteLength before := by
  unfold IsBoundary
  rw [String.Pos.Raw.isValid_iff_exists_append]
  constructor
  · rintro ⟨before, behind, rfl, same⟩
    refine ⟨before.toList, behind.toList, String.toList_append, ?_⟩
    rw [byteLength_toList]
    simpa using congrArg String.Pos.Raw.byteIdx same
  · rintro ⟨before, behind, split, rfl⟩
    refine ⟨String.ofList before, String.ofList behind, ?_, ?_⟩
    · rw [← String.ofList_append, ← split, String.ofList_toList]
    · rw [byteLength_eq]
      rfl

/-- The span goes from one boundary of the text to another one that is not before
it. -/
structure Span.IsWithin (source : String) (span : Span) : Prop where
  ordered : span.start ≤ span.stop
  start : IsBoundary source span.start
  stop : IsBoundary source span.stop

theorem Span.isWithin_of_append {source : String} {before inside behind : List Char}
    (split : source.toList = before ++ inside ++ behind) :
    Span.IsWithin source ⟨byteLength before, byteLength before + byteLength inside⟩ where
  ordered := Nat.le_add_right _ _
  start := isBoundary_iff.mpr ⟨before, inside ++ behind, by rw [split, List.append_assoc], rfl⟩
  stop := isBoundary_iff.mpr ⟨before ++ inside, behind, split, (byteLength_append ..).symm⟩

theorem Span.IsWithin.stop_le {source : String} {span : Span} (within : span.IsWithin source) :
    span.stop ≤ byteLength source.toList := by
  obtain ⟨before, behind, split, same⟩ := isBoundary_iff.mp within.stop
  rw [split, byteLength_append, same]
  exact Nat.le_add_right _ _

end Templating.Text
