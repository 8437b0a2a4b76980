import Templating.Proofs.Text.Search
import Templating.Template.Attributes
/-!
# Classes of attribute names

The front of a name decides what the attribute is; modifiers behind it do not
count.
-/
set_option autoImplicit false

namespace Templating.Template

open Templating.Text

/-- The attribute binds an expression: `:name`, its long form, or a whole
object. -/
def isBindingName (name : String) : Bool :=
  (AttributeName.after? ":" name).isSome || (AttributeName.after? "v-bind:" name).isSome ||
    (AttributeName.splitModifiers name).1 == "v-bind"

def isListenerName (name : String) : Bool :=
  (AttributeName.after? "@" name).isSome || (AttributeName.after? "v-on:" name).isSome

theorem after_eq_some_iff (lead name rest : String) :
    AttributeName.after? lead name = some rest ↔ name.toList = lead.toList ++ rest.toList := by
  simp only [AttributeName.after?, Option.map_eq_some_iff, dropLeading_eq_some_iff]
  constructor
  · rintro ⟨left, split, rfl⟩
    simpa using split
  · intro split
    exact ⟨rest.toList, split, by simp⟩

theorem after_isSome_iff (lead name : String) :
    (AttributeName.after? lead name).isSome = true ↔ lead.toList <+: name.toList := by
  simp only [Option.isSome_iff_exists, after_eq_some_iff]
  constructor
  · rintro ⟨rest, split⟩
    exact ⟨rest.toList, split.symm⟩
  · rintro ⟨rest, split⟩
    exact ⟨String.ofList rest, by simpa using split.symm⟩

theorem splitModifiers_append (name : String) :
    ∃ rest, name.toList = (AttributeName.splitModifiers name).1.toList ++ rest ∧
      (rest = [] ∨ ∃ more, rest = '.' :: more) := by
  unfold AttributeName.splitModifiers
  simp only
  generalize tailEq : (name.toList.reverse.takeWhile (· ≠ ']')).reverse = tail
  have suffix : tail <:+ name.toList := by
    rw [← tailEq, ← List.reverse_prefix, List.reverse_reverse]
    exact List.takeWhile_prefix _
  obtain ⟨front, split⟩ := suffix
  have taken : name.toList.take (name.toList.length - tail.length) = front := by
    rw [← split]
    simp
  cases cut : cutAt? '.' tail with
  | none => exact ⟨[], by simp, .inl rfl⟩
  | some found =>
    obtain ⟨before, after⟩ := found
    have cutTail := breakAt_eq_some cut
    refine ⟨'.' :: after, ?_, .inr ⟨after, rfl⟩⟩
    simp only [taken, String.toList_ofList]
    rw [← split, cutTail]
    simp

theorem after_splitModifiers_isSome (lead : String) (noDot : '.' ∉ lead.toList) (name : String) :
    (AttributeName.after? lead (AttributeName.splitModifiers name).1).isSome =
      (AttributeName.after? lead name).isSome := by
  rw [Bool.eq_iff_iff, after_isSome_iff, after_isSome_iff]
  obtain ⟨rest, split, shape⟩ := splitModifiers_append name
  generalize (AttributeName.splitModifiers name).1.toList = front at split
  rw [split]
  constructor
  · exact fun found => found.trans (List.prefix_append _ _)
  · intro found
    rcases shape with rfl | ⟨more, rfl⟩
    · simpa using found
    · obtain inside | ⟨extra, extended⟩ := List.prefix_or_prefix_of_prefix found (List.prefix_append front ('.' :: more))
      · exact inside
      · cases extra with
        | nil => simp at extended; exact extended ▸ List.prefix_refl _
        | cons c extra =>
          obtain ⟨behind, joined⟩ := found
          rw [← extended, List.append_assoc, List.append_cancel_left_eq, List.cons_append] at joined
          obtain ⟨rfl, -⟩ := List.cons.inj joined
          exact absurd (extended ▸ List.mem_append_right front List.mem_cons_self) noDot

theorem mem_of_after_splitModifiers {lead name rest : String} {c : Char}
    (found : AttributeName.after? lead (AttributeName.splitModifiers name).1 = some rest)
    (inside : c ∈ rest.toList) : c ∈ name.toList := by
  obtain ⟨behind, split, -⟩ := splitModifiers_append name
  rw [split, (after_eq_some_iff _ _ _).mp found]
  simp [inside]

theorem bracket_mem_of_argument {source : String}
    (isExpression : (AttributeName.argument source).2 = true) : '[' ∈ source.toList := by
  unfold AttributeName.argument at isExpression
  split at isExpression
  · next found =>
    obtain ⟨inside, opened, -⟩ := Option.bind_eq_some_iff.mp found
    rw [(dropLeading_eq_some_iff _ _ _).mp opened]
    simp
  · cases isExpression

end Templating.Template
