import Templating.Proofs.Grammar.Balance
/-!
# Two readings side by side

A pairing relates what two readings have left, given the brackets that are still
to be closed, and is respected by the readers of single tokens.  Then it is
respected by the readers of patterns and expressions: both fail, or both give
the same result and leave related rests, shorter than before.  The induction is
over the depth of nesting; one step of it is one lemma for each reader.
-/
set_option autoImplicit false

namespace Templating.Expression.Grammar

open Templating.Text

variable {α β : Type}

/-- Two readings from `left` and `right` end alike. -/
inductive Match (rests : List Char → List Char → Prop) (left right : List Char) :
    Option (α × List Char) → Option (α × List Char) → Prop where
  | none : Match rests left right none none
  | some (result : α) (leftRest rightRest : List Char) (related : rests leftRest rightRest)
      (leftShorter : leftRest.length < left.length)
      (rightShorter : rightRest.length < right.length) :
      Match rests left right (some (result, leftRest)) (some (result, rightRest))

inductive MarkMatch (rests : List Char → List Char → Prop) (left right : List Char) :
    Option (List Char) → Option (List Char) → Prop where
  | none : MarkMatch rests left right none none
  | some (leftRest rightRest : List Char) (related : rests leftRest rightRest)
      (leftShorter : leftRest.length < left.length)
      (rightShorter : rightRest.length < right.length) :
      MarkMatch rests left right (some leftRest) (some rightRest)

/-- As `Match`, for a reader that may leave all that it was given. -/
inductive WeakMatch (rests : List Char → List Char → Prop) (left right : List Char) :
    Option (α × List Char) → Option (α × List Char) → Prop where
  | none : WeakMatch rests left right none none
  | some (result : α) (leftRest rightRest : List Char) (related : rests leftRest rightRest)
      (leftBound : leftRest.length ≤ left.length) (rightBound : rightRest.length ≤ right.length) :
      WeakMatch rests left right (some (result, leftRest)) (some (result, rightRest))

/-- Two results of a reader that always succeeds and may leave all. -/
structure SameResult (rests : List Char → List Char → Prop) (left right : List Char)
    (first second : α × List Char) : Prop where
  result : first.1 = second.1
  related : rests first.2 second.2
  leftBound : first.2.length ≤ left.length
  rightBound : second.2.length ≤ right.length

/-- The characters of marks that stand inside an expression and neither open,
close nor separate. -/
def isInnerMark (mark : String) : Bool :=
  !mark.toList.isEmpty && mark.toList.all fun c => isPlain c && c != ',' && !isSeparatingBlank c

/-- A relation of rests that names, brackets and marks respect. -/
structure BracketPairing where
  /-- Both rests close the brackets in the first argument. -/
  holds : List Char → List Char → List Char → Prop
  opening : ∀ {mark : String} {c closer : Char}, mark.toList = [c] → closerOf? c = some closer →
    ∀ {expected left right : List Char}, holds expected left right →
      MarkMatch (holds (closer :: expected)) left right (mark? mark left) (mark? mark right)
  closing : ∀ {mark : String} {c : Char}, mark.toList = [c] → endsNested c = true →
    ∀ {expected left right : List Char}, holds (c :: expected) left right →
      MarkMatch (holds expected) left right (mark? mark left) (mark? mark right)
  comma : ∀ {c : Char} {expected left right : List Char}, holds (c :: expected) left right →
    MarkMatch (holds (c :: expected)) left right (mark? "," left) (mark? "," right)
  inner : ∀ {mark : String}, isInnerMark mark = true →
    ∀ {expected left right : List Char}, holds expected left right →
      MarkMatch (holds expected) left right (mark? mark left) (mark? mark right)
  name : ∀ {expected left right : List Char}, holds expected left right →
    Match (holds expected) left right (anyName left) (anyName right)

/-- A relation of rests that every token of an expression respects. -/
structure Pairing extends BracketPairing where
  text : ∀ {expected left right : List Char}, holds expected left right →
    Match (holds expected) left right (textLiteral left) (textLiteral right)
  number : ∀ {expected left right : List Char}, holds expected left right →
    Match (holds expected) left right (numberText left) (numberText right)
  listener : ∀ {c : Char} {expected left right : List Char}, holds (c :: expected) left right →
    Match (holds (c :: expected)) left right (listenerSource left) (listenerSource right)

/-! ## Combining matches -/

namespace Match

variable {rests finalRests : List Char → List Char → Prop} {left right : List Char}
  {first second : Option (α × List Char)}

theorem map (convert : α → β) (found : Match rests left right first second) :
    Match rests left right (first.map fun entry => (convert entry.1, entry.2))
      (second.map fun entry => (convert entry.1, entry.2)) := by
  cases found with
  | none => exact .none
  | some result leftRest rightRest related leftShorter rightShorter =>
    exact .some (convert result) leftRest rightRest related leftShorter rightShorter

theorem orElse {otherFirst otherSecond : Option (α × List Char)}
    (found : Match rests left right first second)
    (other : Match rests left right otherFirst otherSecond) :
    Match rests left right (first.orElse fun _ => otherFirst)
      (second.orElse fun _ => otherSecond) := by
  cases found with
  | none => exact other
  | some result leftRest rightRest related leftShorter rightShorter =>
    exact .some result leftRest rightRest related leftShorter rightShorter

theorem trans_le {leftRest rightRest : List Char}
    (found : Match rests leftRest rightRest first second)
    (leftBound : leftRest.length ≤ left.length) (rightBound : rightRest.length ≤ right.length) :
    Match rests left right first second := by
  cases found with
  | none => exact .none
  | some result leftEnd rightEnd related leftEarlier rightEarlier =>
    exact .some result leftEnd rightEnd related (Nat.lt_of_lt_of_le leftEarlier leftBound)
      (Nat.lt_of_lt_of_le rightEarlier rightBound)

theorem trans {leftRest rightRest : List Char}
    (found : Match rests leftRest rightRest first second)
    (leftShorter : leftRest.length < left.length) (rightShorter : rightRest.length < right.length) :
    Match rests left right first second :=
  found.trans_le (Nat.le_of_lt leftShorter) (Nat.le_of_lt rightShorter)

theorem weaken (found : Match rests left right first second) :
    WeakMatch rests left right first second := by
  cases found with
  | none => exact .none
  | some result leftRest rightRest related leftShorter rightShorter =>
    exact .some result leftRest rightRest related (Nat.le_of_lt leftShorter)
      (Nat.le_of_lt rightShorter)

theorem bind {next nextOther : α × List Char → Option (β × List Char)}
    (found : Match rests left right first second)
    (continued : ∀ result leftRest rightRest, rests leftRest rightRest →
      leftRest.length < left.length → rightRest.length < right.length →
      Match finalRests leftRest rightRest (next (result, leftRest))
        (nextOther (result, rightRest))) :
    Match finalRests left right (first.bind next) (second.bind nextOther) := by
  cases found with
  | none => exact .none
  | some result leftRest rightRest related leftShorter rightShorter =>
    exact (continued result leftRest rightRest related leftShorter rightShorter).trans leftShorter
      rightShorter

theorem bind_some (convert : α → β) (found : Match rests left right first second) :
    Match rests left right (first.bind fun entry => Option.some (convert entry.1, entry.2))
      (second.bind fun entry => Option.some (convert entry.1, entry.2)) := by
  cases found with
  | none => exact .none
  | some result leftRest rightRest related leftShorter rightShorter =>
    exact .some (convert result) leftRest rightRest related leftShorter rightShorter

end Match

namespace MarkMatch

variable {rests finalRests : List Char → List Char → Prop} {left right : List Char}
  {first second : Option (List Char)}

theorem trans {leftRest rightRest : List Char}
    (found : MarkMatch rests leftRest rightRest first second)
    (leftShorter : leftRest.length ≤ left.length) (rightShorter : rightRest.length ≤ right.length) :
    MarkMatch rests left right first second := by
  cases found with
  | none => exact .none
  | some leftEnd rightEnd related leftEarlier rightEarlier =>
    exact .some leftEnd rightEnd related (Nat.lt_of_lt_of_le leftEarlier leftShorter)
      (Nat.lt_of_lt_of_le rightEarlier rightShorter)

theorem bind {next nextOther : List Char → Option (β × List Char)}
    (found : MarkMatch rests left right first second)
    (continued : ∀ leftRest rightRest, rests leftRest rightRest →
      leftRest.length < left.length → rightRest.length < right.length →
      Match finalRests leftRest rightRest (next leftRest) (nextOther rightRest)) :
    Match finalRests left right (first.bind next) (second.bind nextOther) := by
  cases found with
  | none => exact .none
  | some leftRest rightRest related leftShorter rightShorter =>
    exact (continued leftRest rightRest related leftShorter rightShorter).trans leftShorter
      rightShorter

theorem map (result : β) (found : MarkMatch rests left right first second) :
    Match rests left right (first.map fun rest => (result, rest))
      (second.map fun rest => (result, rest)) := by
  cases found with
  | none => exact .none
  | some leftRest rightRest related leftShorter rightShorter =>
    exact .some result leftRest rightRest related leftShorter rightShorter

theorem bind_some (result : β) (found : MarkMatch rests left right first second) :
    Match rests left right (first.bind fun rest => Option.some (result, rest))
      (second.bind fun rest => Option.some (result, rest)) := by
  cases found with
  | none => exact .none
  | some leftRest rightRest related leftShorter rightShorter =>
    exact .some result leftRest rightRest related leftShorter rightShorter

theorem getD (found : MarkMatch rests left right first second) (related : rests left right) :
    rests (first.getD left) (second.getD right) ∧ (first.getD left).length ≤ left.length ∧
      (second.getD right).length ≤ right.length := by
  cases found with
  | none => exact ⟨related, Nat.le_refl _, Nat.le_refl _⟩
  | some leftRest rightRest related leftShorter rightShorter =>
    exact ⟨related, Nat.le_of_lt leftShorter, Nat.le_of_lt rightShorter⟩

end MarkMatch

end Templating.Expression.Grammar
