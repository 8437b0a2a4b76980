import Mathlib.Data.List.Basic
import Templating.Markup.Reference
import Templating.Text.Blank
import Templating.Tree.Markup
/-!
# Escaped text is decoded again

Markup writes references for the characters that it gives a meaning, and reading
puts the characters back, in attributes and in text.
-/
set_option autoImplicit false

namespace Templating.Markup

open Templating.Text Templating.Tree

/-- The references that markup is written with are known. -/
structure KnowsEscapes (known : String → Option Char) : Prop where
  ampersand : known "amp" = some '&'
  less : known "lt" = some '<'
  greater : known "gt" = some '>'
  quote : known "quot" = some '\x22'

theorem attributeReference_knows (keepsBreaks : Bool) :
    KnowsEscapes (attributeReference? keepsBreaks) where
  ampersand := by simp [attributeReference?]
  less := by simp [attributeReference?]
  greater := by simp [attributeReference?]
  quote := by simp [attributeReference?]

theorem textReference_knows : KnowsEscapes textReference? where
  ampersand := by decide
  less := by decide
  greater := by decide
  quote := by decide

section Decoding

variable {known : String → Option Char}

theorem decodeWith_skip (front behind : List Char) :
    decodeWith known front.length (front ++ behind) = decodeWith known 0 behind := by
  induction front with
  | nil => rfl
  | cons c others ih => exact ih

theorem decodeWith_reference {name : List Char} {decoded : Char} {rest : List Char}
    (found : referenceName? 10 (name ++ ';' :: rest) = some (name, rest)) (nonempty : name ≠ [])
    (knows : known (String.ofList name) = some decoded) :
    decodeWith known 0 ('&' :: (name ++ ';' :: rest)) = decoded :: decodeWith known 0 rest := by
  have passed := @decodeWith_skip known (name ++ [';']) rest
  rw [List.append_assoc, List.singleton_append, List.length_append, List.length_singleton] at passed
  rw [decodeWith, if_pos rfl, found]
  simp only [List.isEmpty_eq_false_iff.mpr nonempty, Bool.false_eq_true, if_false, knows, passed]

theorem decodeWith_escapeChar (knows : KnowsEscapes known) (inAttribute : Bool) (c : Char)
    (rest : List Char) :
    decodeWith known 0 (escapeChar inAttribute c ++ rest) = c :: decodeWith known 0 rest := by
  unfold escapeChar
  split
  · next same =>
    subst same
    exact @decodeWith_reference _ ['a', 'm', 'p'] _ rest rfl (by simp) knows.ampersand
  · next plain =>
    split
    · next same =>
      subst same
      exact @decodeWith_reference _ ['l', 't'] _ rest rfl (by simp) knows.less
    · split
      · next same =>
        subst same
        exact @decodeWith_reference _ ['g', 't'] _ rest rfl (by simp) knows.greater
      · split
        · next same =>
          rw [same.1]
          exact @decodeWith_reference _ ['q', 'u', 'o', 't'] _ rest rfl (by simp) knows.quote
        · rw [List.singleton_append, decodeWith, if_neg plain]

theorem decodeWith_escape (knows : KnowsEscapes known) (inAttribute : Bool) (source : List Char) :
    decodeWith known 0 (source.flatMap (escapeChar inAttribute)) = source := by
  induction source with
  | nil => rfl
  | cons c rest ih => rw [List.flatMap_cons, decodeWith_escapeChar knows, ih]

end Decoding

theorem decodeAttribute_escape (keepsBreaks inAttribute : Bool) (value : String) :
    decodeAttribute keepsBreaks (escape inAttribute value) = value := by
  rw [decodeAttribute, escape, String.toList_ofList,
    decodeWith_escape (attributeReference_knows keepsBreaks), String.ofList_toList]

theorem decodeText_escape (inAttribute : Bool) (content : String) :
    decodeText (escape inAttribute content) = content := by
  rw [decodeText, escape, String.toList_ofList, decodeWith_escape textReference_knows,
    String.ofList_toList]

/-- Decoding inverts escaping: whatever content is escaped, for an attribute or
for text, it is read back from either place. Content that looks like references
is no exception, its ampersands being escaped with the rest. -/
theorem decode_escape (content : String) (inAttribute keepsBreaks : Bool) :
    decodeText (escape inAttribute content) = content ∧
      decodeAttribute keepsBreaks (escape inAttribute content) = content :=
  ⟨decodeText_escape inAttribute content, decodeAttribute_escape keepsBreaks inAttribute content⟩

/-! ## Characters of escaped text -/

theorem escapeChar_cases (inAttribute : Bool) (c : Char) :
    (∃ name ∈ ["amp", "lt", "gt", "quot"],
      escapeChar inAttribute c = '&' :: name.toList ++ [';']) ∨
      escapeChar inAttribute c = [c] ∧ c ≠ '<' ∧ (inAttribute = true → c ≠ '\x22') := by
  unfold escapeChar
  by_cases ampersand : c = '&'
  · exact .inl ⟨"amp", by simp, by rw [if_pos ampersand]; rfl⟩
  by_cases less : c = '<'
  · exact .inl ⟨"lt", by simp, by rw [if_neg ampersand, if_pos less]; rfl⟩
  by_cases greater : c = '>'
  · exact .inl ⟨"gt", by simp, by rw [if_neg ampersand, if_neg less, if_pos greater]; rfl⟩
  by_cases quote : c = '\x22' ∧ inAttribute = true
  · refine .inl ⟨"quot", by simp, ?_⟩
    rw [if_neg ampersand, if_neg less, if_neg greater, if_pos quote]
    rfl
  · refine .inr ⟨?_, less, fun inside same => quote ⟨same, inside⟩⟩
    rw [if_neg ampersand, if_neg less, if_neg greater, if_neg quote]

theorem ne_of_mem_reference {name : String} (listed : name ∈ ["amp", "lt", "gt", "quot"]) {c : Char}
    (held : c ∈ '&' :: name.toList ++ [';']) : c ≠ '<' ∧ c ≠ '\x22' := by
  simp only [List.mem_cons, List.not_mem_nil, or_false] at listed
  constructor <;> rintro rfl <;> rcases listed with rfl | rfl | rfl | rfl <;> simp at held

theorem ne_less_of_mem_escape {inAttribute : Bool} {source : List Char} {c : Char}
    (held : c ∈ source.flatMap (escapeChar inAttribute)) : c ≠ '<' := by
  obtain ⟨d, -, inside⟩ := List.mem_flatMap.mp held
  rcases escapeChar_cases inAttribute d with ⟨name, listed, same⟩ | ⟨same, plain, -⟩
  · exact (ne_of_mem_reference listed (same ▸ inside)).1
  · rw [same] at inside
    exact List.mem_singleton.mp inside ▸ plain

theorem ne_quote_of_mem_escape {source : List Char} {c : Char}
    (held : c ∈ source.flatMap (escapeChar true)) : c ≠ '\x22' := by
  obtain ⟨d, -, inside⟩ := List.mem_flatMap.mp held
  rcases escapeChar_cases true d with ⟨name, listed, same⟩ | ⟨same, -, plain⟩
  · exact (ne_of_mem_reference listed (same ▸ inside)).2
  · rw [same] at inside
    exact List.mem_singleton.mp inside ▸ plain rfl

theorem allBlank_escape {content : String} (visible : allBlank content = false) (inAttribute : Bool) :
    allBlank (escape inAttribute content) = false := by
  rw [allBlank, List.all_eq_false] at visible ⊢
  obtain ⟨c, held, shown⟩ := visible
  rw [escape, String.toList_ofList]
  rcases escapeChar_cases inAttribute c with ⟨name, -, same⟩ | ⟨same, -, -⟩
  · exact ⟨'&', List.mem_flatMap.mpr ⟨c, held, same ▸ List.mem_cons_self⟩, by decide⟩
  · exact ⟨c, List.mem_flatMap.mpr ⟨c, held, same ▸ List.mem_cons_self⟩, shown⟩

end Templating.Markup
