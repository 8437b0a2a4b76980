import Templating.Proofs.Grammar.Tokens
/-!
# The bound on depth does not show

Equal sources are a pairing, so a reader with a larger bound on the depth of
nesting gives the same.  Hence `expression` is the reader that is tied to
itself, and every expression takes at least one character.
-/
set_option autoImplicit false

namespace Templating.Expression.Grammar

open Templating.Text

variable {α : Type} {source rest : List Char}

theorem match_self {reader : Reader α}
    (shorter : ∀ result rest, reader source = some (result, rest) → rest.length < source.length) :
    Match Eq source source (reader source) (reader source) := by
  cases found : reader source with
  | none => exact .none
  | some entry =>
    have less := shorter entry.1 entry.2 found
    exact .some entry.1 entry.2 entry.2 rfl less less

theorem markMatch_self {mark : String} (given : mark.toList ≠ []) :
    MarkMatch Eq source source (mark? mark source) (mark? mark source) := by
  cases found : mark? mark source with
  | none => exact .none
  | some rest =>
    have less := mark_length_lt given found
    exact .some rest rest rfl less less

theorem isInnerMark_ne_nil {mark : String} (inner : isInnerMark mark = true) : mark.toList ≠ [] := by
  intro none
  simp [isInnerMark, none] at inner

def samePairing : Pairing where
  holds _ left right := left = right
  opening single _ := by
    rintro - left - rfl
    exact markMatch_self (by simp [single])
  closing single _ := by
    rintro - left - rfl
    exact markMatch_self (by simp [single])
  comma := by
    rintro - - left - rfl
    exact markMatch_self (by decide)
  inner isInner := by
    rintro - left - rfl
    exact markMatch_self (isInnerMark_ne_nil isInner)
  name := by
    rintro - left - rfl
    exact match_self fun _ _ found => anyName_length_lt found
  text := by
    rintro - left - rfl
    exact match_self fun _ _ found => textLiteral_length_lt found
  number := by
    rintro - left - rfl
    exact match_self fun _ _ found => numberText_length_lt found
  listener := by
    rintro - - left - rfl
    exact match_self fun _ _ found => listenerSource_length_lt found

theorem samePairing_self (expected source : List Char) : samePairing.holds expected source source :=
  rfl

theorem Match.eq {first second : Option (α × List Char)} (found : Match Eq source source first second) :
    first = second := by
  cases found with
  | none => rfl
  | some result leftRest rightRest related => rw [related]

theorem Match.length_lt {rests : List Char → List Char → Prop} {first : Option (α × List Char)}
    {result : α} (self : Match rests source source first first)
    (found : first = Option.some (result, rest)) : rest.length < source.length := by
  subst found
  cases self with
  | some _ _ _ _ shorter => exact shorter

theorem expressionIn_eq {depth : Nat} (enough : source.length < depth) :
    expressionIn depth source = expression source :=
  (expressionIn_match depth (source.length + 1) [] source source (samePairing_self [] source) enough
    (Nat.lt_succ_self _)).eq

theorem expression_length_lt {result : Expr} (found : expression source = some (result, rest)) :
    rest.length < source.length :=
  (expression_match (samePairing_self [] source)).length_lt found

/-- Nested expressions are read alike wherever they stand. -/
theorem expression_paired (leftBound rightBound : Nat) :
    Paired samePairing.holds leftBound rightBound expression expression := by
  intro _ left _ related _ _
  cases related
  exact match_self fun _ _ found => expression_length_lt found

theorem expression_eq : expression source = expressionWith expression source := by
  have nested : Paired samePairing.holds source.length source.length (expressionIn source.length)
      expression := by
    intro expected left right related leftBelow rightBelow
    rw [expressionIn_eq leftBelow]
    exact expression_paired _ _ expected left right related leftBelow rightBelow
  exact (expressionWith_match nested (samePairing_self [] source) (Nat.le_refl _) (Nat.le_refl _)).eq

theorem pattern_length_lt {result : Pattern} (found : pattern source = some (result, rest)) :
    rest.length < source.length :=
  (pattern_match (samePairing_self [] source)).length_lt found

end Templating.Expression.Grammar
