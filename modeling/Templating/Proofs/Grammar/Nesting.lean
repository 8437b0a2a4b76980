import Mathlib.Data.List.DropRight
import Templating.Proofs.Grammar.Pairing
/-!
# Pairings of nested readings

The readers of patterns and expressions respect every pairing.  The readers for
what is nested are taken with two bounds: they are entered only with rests
shorter than the sources at hand.
-/
set_option autoImplicit false

namespace Templating.Expression.Grammar

open Templating.Text

variable {α : Type}

/-- The two readers respect the relation on sources below the bounds. -/
def Paired (holds : List Char → List Char → List Char → Prop) (leftBound rightBound : Nat)
    (first second : Reader α) : Prop :=
  ∀ expected left right, holds expected left right → left.length < leftBound →
    right.length < rightBound → Match (holds expected) left right (first left) (second right)

variable {pairing : BracketPairing} {expected left right : List Char}

theorem word_match (word : String) (related : pairing.holds expected left right) :
    MarkMatch (pairing.holds expected) left right (word? word left) (word? word right) := by
  have found := pairing.name related
  unfold word?
  generalize anyName left = first at found ⊢
  generalize anyName right = second at found ⊢
  cases found with
  | none => exact .none
  | some name leftRest rightRest related leftShorter rightShorter =>
    by_cases same : name == word
    · simpa only [same, if_true] using .some leftRest rightRest related leftShorter rightShorter
    · simpa only [same, Bool.false_eq_true, if_false] using MarkMatch.none

theorem variableName_match (related : pairing.holds expected left right) :
    Match (pairing.holds expected) left right (variableName left) (variableName right) := by
  have found := pairing.name related
  unfold variableName
  generalize anyName left = first at found ⊢
  generalize anyName right = second at found ⊢
  cases found with
  | none => exact .none
  | some name leftRest rightRest related leftShorter rightShorter =>
    by_cases isReserved : reserved.contains name
    · simpa only [isReserved, if_true] using Match.none
    · simpa only [isReserved, Bool.false_eq_true, if_false] using
        .some name leftRest rightRest related leftShorter rightShorter

/-! ## Repetition -/

theorem manyFrom_match (first second : Reader α) {leftBound rightBound : Nat}
    (items : ∀ left right, pairing.holds expected left right → left.length ≤ leftBound →
      right.length ≤ rightBound → Match (pairing.holds expected) left right (first left) (second right)) :
    ∀ (leftFuel rightFuel : Nat) (left right : List Char), pairing.holds expected left right →
      left.length ≤ leftFuel → right.length ≤ rightFuel → left.length ≤ leftBound →
      right.length ≤ rightBound →
      SameResult (pairing.holds expected) left right (manyFrom first leftFuel left)
        (manyFrom second rightFuel right) := by
  -- Where the fuel of one side is used up, no item is left on either.
  intro leftFuel
  induction leftFuel with
  | zero =>
    intro rightFuel left right related leftEnough rightEnough leftBelow rightBelow
    have found := items left right related leftBelow rightBelow
    have stopped : (manyFrom second rightFuel right) = ([], right) := by
      cases rightFuel with
      | zero => rfl
      | succ rightFuel =>
        generalize first left = one, atRight : second right = two at found
        cases found with
        | none => simp [manyFrom, atRight]
        | some result leftRest rightRest related leftShorter rightShorter => omega
    rw [stopped]
    exact ⟨rfl, related, Nat.le_refl _, Nat.le_refl _⟩
  | succ leftFuel ih =>
    intro rightFuel left right related leftEnough rightEnough leftBelow rightBelow
    have found := items left right related leftBelow rightBelow
    generalize atLeft : first left = one, atRight : second right = two at found
    cases found with
    | none =>
      have stopped : (manyFrom second rightFuel right) = ([], right) := by
        cases rightFuel <;> simp [manyFrom, atRight]
      rw [stopped]
      simp only [manyFrom, atLeft]
      exact ⟨rfl, related, Nat.le_refl _, Nat.le_refl _⟩
    | some result leftRest rightRest relatedRests leftShorter rightShorter =>
      cases rightFuel with
      | zero => omega
      | succ rightFuel =>
        have others := ih rightFuel leftRest rightRest relatedRests (by omega) (by omega) (by omega)
          (by omega)
        simp only [manyFrom, atLeft, atRight]
        have leftLess := others.leftBound
        have rightLess := others.rightBound
        refine ⟨by rw [others.result], others.related, ?_, ?_⟩
        · exact Nat.le_trans leftLess (Nat.le_of_lt leftShorter)
        · exact Nat.le_trans rightLess (Nat.le_of_lt rightShorter)

theorem many_match (first second : Reader α) (related : pairing.holds expected left right)
    (items : ∀ leftRest rightRest, pairing.holds expected leftRest rightRest →
      leftRest.length ≤ left.length → rightRest.length ≤ right.length →
      Match (pairing.holds expected) leftRest rightRest (first leftRest) (second rightRest)) :
    SameResult (pairing.holds expected) left right (many first left) (many second right) :=
  manyFrom_match first second items left.length right.length left right related (Nat.le_refl _) (Nat.le_refl _)
    (Nat.le_refl _) (Nat.le_refl _)

theorem commaThen_match {first second : Reader α} {closer : Char}
    (related : pairing.holds (closer :: expected) left right)
    (items : ∀ leftRest rightRest, pairing.holds (closer :: expected) leftRest rightRest →
      leftRest.length ≤ left.length → rightRest.length ≤ right.length →
      WeakMatch (pairing.holds (closer :: expected)) leftRest rightRest (first leftRest)
        (second rightRest)) :
    Match (pairing.holds (closer :: expected)) left right (commaThen first left)
      (commaThen second right) := by
  have found := pairing.comma related
  unfold commaThen
  generalize mark? "," left = one at found ⊢
  generalize mark? "," right = two at found ⊢
  cases found with
  | none => exact .none
  | some leftRest rightRest relatedRests leftShorter rightShorter =>
    have item := items leftRest rightRest relatedRests (Nat.le_of_lt leftShorter)
      (Nat.le_of_lt rightShorter)
    simp only [Option.bind_some]
    generalize first leftRest = one at item ⊢
    generalize second rightRest = two at item ⊢
    cases item with
    | none => exact .none
    | some result leftEnd rightEnd relatedEnds leftEarlier rightEarlier =>
      exact .some result leftEnd rightEnd relatedEnds (by omega) (by omega)

theorem separated_match {first second : Reader α} {closer : Char}
    (related : pairing.holds (closer :: expected) left right)
    (items : ∀ leftRest rightRest, pairing.holds (closer :: expected) leftRest rightRest →
      leftRest.length ≤ left.length → rightRest.length ≤ right.length →
      WeakMatch (pairing.holds (closer :: expected)) leftRest rightRest (first leftRest)
        (second rightRest)) :
    SameResult (pairing.holds (closer :: expected)) left right (separated first left)
      (separated second right) := by
  have found := items left right related (Nat.le_refl _) (Nat.le_refl _)
  unfold separated
  generalize first left = one at found ⊢
  generalize second right = two at found ⊢
  cases found with
  | none => exact ⟨rfl, related, Nat.le_refl _, Nat.le_refl _⟩
  | some result leftRest rightRest relatedRests leftBound rightBound =>
    have others := many_match (commaThen first) (commaThen second) relatedRests
      fun leftEnd rightEnd relatedEnds leftBelow rightBelow =>
        commaThen_match relatedEnds fun leftLast rightLast relatedLasts leftLess rightLess =>
          items leftLast rightLast relatedLasts (by omega) (by omega)
    exact ⟨by simp only [others.result], others.related,
      Nat.le_trans others.leftBound leftBound, Nat.le_trans others.rightBound rightBound⟩

structure IsBracketPair (opening closing : String) (opener closer : Char) : Prop where
  openingText : opening.toList = [opener]
  closingText : closing.toList = [closer]
  belongs : closerOf? opener = some closer
  ends : endsNested closer = true

theorem roundPair : IsBracketPair "(" ")" '(' ')' := ⟨rfl, rfl, rfl, rfl⟩

theorem squarePair : IsBracketPair "[" "]" '[' ']' := ⟨rfl, rfl, rfl, rfl⟩

theorem curlyPair : IsBracketPair "\x7b" "\x7d" '\x7b' '\x7d' := ⟨rfl, rfl, rfl, rfl⟩

section Enclosed

variable {opening closing : String} {opener closer : Char} {first second : Reader α}

theorem enclosed_match (pair : IsBracketPair opening closing opener closer)
    (related : pairing.holds expected left right)
    (items : ∀ leftRest rightRest, pairing.holds (closer :: expected) leftRest rightRest →
      leftRest.length < left.length → rightRest.length < right.length →
      WeakMatch (pairing.holds (closer :: expected)) leftRest rightRest (first leftRest)
        (second rightRest)) :
    Match (pairing.holds expected) left right (enclosed opening closing first left)
      (enclosed opening closing second right) := by
  have opened := pairing.opening pair.openingText pair.belongs related
  unfold enclosed
  generalize mark? opening left = one at opened ⊢
  generalize mark? opening right = two at opened ⊢
  cases opened with
  | none => exact .none
  | some leftRest rightRest relatedRests leftShorter rightShorter =>
    have inside := separated_match relatedRests fun leftEnd rightEnd relatedEnds leftBelow rightBelow =>
      items leftEnd rightEnd relatedEnds (by omega) (by omega)
    have closed := (pairing.closing pair.closingText pair.ends inside.related).map
      (separated first leftRest).1
    simp only [inside.result] at closed ⊢
    exact closed.trans (by have := inside.leftBound; omega) (by have := inside.rightBound; omega)

theorem enclosedWithComma_match (pair : IsBracketPair opening closing opener closer)
    (related : pairing.holds expected left right)
    (items : ∀ leftRest rightRest, pairing.holds (closer :: expected) leftRest rightRest →
      leftRest.length < left.length → rightRest.length < right.length →
      WeakMatch (pairing.holds (closer :: expected)) leftRest rightRest (first leftRest)
        (second rightRest)) :
    Match (pairing.holds expected) left right (enclosedWithComma opening closing first left)
      (enclosedWithComma opening closing second right) := by
  have opened := pairing.opening pair.openingText pair.belongs related
  unfold enclosedWithComma
  generalize mark? opening left = one at opened ⊢
  generalize mark? opening right = two at opened ⊢
  cases opened with
  | none => exact .none
  | some leftRest rightRest relatedRests leftShorter rightShorter =>
    have inside := separated_match relatedRests fun leftEnd rightEnd relatedEnds leftBelow rightBelow =>
      items leftEnd rightEnd relatedEnds (by omega) (by omega)
    obtain ⟨relatedEnds, leftLess, rightLess⟩ :=
      (pairing.comma inside.related).getD inside.related
    have closed := (pairing.closing pair.closingText pair.ends relatedEnds).map
      (separated first leftRest).1
    simp only [inside.result] at closed ⊢
    exact closed.trans (by have := inside.leftBound; omega) (by have := inside.rightBound; omega)

end Enclosed

/-! ## Patterns -/

section Patterns

variable {first second : Reader Pattern} {leftBound rightBound : Nat}

theorem patternField_match (nested : Paired pairing.holds leftBound rightBound first second)
    (related : pairing.holds expected left right) (leftBelow : left.length ≤ leftBound)
    (rightBelow : right.length ≤ rightBound) :
    Match (pairing.holds expected) left right (patternField first left) (patternField second right) := by
  have found := pairing.name related
  unfold patternField
  generalize anyName left = one at found ⊢
  generalize anyName right = two at found ⊢
  cases found with
  | none => exact .none
  | some name leftRest rightRest relatedRests leftShorter rightShorter =>
    have target : Match (pairing.holds expected) leftRest rightRest
        ((mark? ":" leftRest).bind first) ((mark? ":" rightRest).bind second) :=
      (pairing.inner (by decide) relatedRests).bind fun leftEnd rightEnd relatedEnds leftLess rightLess =>
        nested expected leftEnd rightEnd relatedEnds (by omega) (by omega)
    simp only
    generalize (mark? ":" leftRest).bind first = one at target ⊢
    generalize (mark? ":" rightRest).bind second = two at target ⊢
    cases target with
    | none => exact .some _ leftRest rightRest relatedRests leftShorter rightShorter
    | some inner leftEnd rightEnd relatedEnds leftLess rightLess =>
      exact .some _ leftEnd rightEnd relatedEnds (Nat.lt_trans leftLess leftShorter)
        (Nat.lt_trans rightLess rightShorter)

theorem patternSlot_match (nested : Paired pairing.holds leftBound rightBound first second)
    (related : pairing.holds expected left right) (leftBelow : left.length < leftBound)
    (rightBelow : right.length < rightBound) :
    WeakMatch (pairing.holds expected) left right (patternSlot first left)
      (patternSlot second right) := by
  have found := nested expected left right related leftBelow rightBelow
  unfold patternSlot
  generalize first left = one at found ⊢
  generalize second right = two at found ⊢
  cases found with
  | none => exact .some none left right related (Nat.le_refl _) (Nat.le_refl _)
  | some inner leftRest rightRest relatedRests leftShorter rightShorter =>
    exact .some (some inner) leftRest rightRest relatedRests (Nat.le_of_lt leftShorter)
      (Nat.le_of_lt rightShorter)

theorem patternWith_match (nested : Paired pairing.holds leftBound rightBound first second)
    (related : pairing.holds expected left right) (leftBelow : left.length ≤ leftBound)
    (rightBelow : right.length ≤ rightBound) :
    Match (pairing.holds expected) left right (patternWith first left) (patternWith second right) := by
  have fields := enclosedWithComma_match curlyPair related
    fun leftRest rightRest relatedRests leftShorter rightShorter =>
      (patternField_match nested relatedRests (by omega) (by omega)).weaken
  have slots := enclosed_match squarePair related
    fun leftRest rightRest relatedRests leftShorter rightShorter =>
      patternSlot_match nested relatedRests (by omega) (by omega)
  exact (((variableName_match related).map Pattern.name).orElse (fields.map Pattern.record)).orElse
    (slots.map Pattern.list)

end Patterns

theorem patternIn_match : ∀ (leftDepth rightDepth : Nat),
    Paired pairing.holds leftDepth rightDepth (patternIn leftDepth) (patternIn rightDepth) := by
  intro leftDepth
  induction leftDepth with
  | zero => intro rightDepth expected left right related leftBelow; omega
  | succ leftDepth ih =>
    intro rightDepth expected left right related leftBelow rightBelow
    cases rightDepth with
    | zero => omega
    | succ rightDepth =>
      exact patternWith_match (ih rightDepth) related (by omega) (by omega)

theorem pattern_match (related : pairing.holds expected left right) :
    Match (pairing.holds expected) left right (pattern left) (pattern right) :=
  patternIn_match (left.length + 1) (right.length + 1) expected left right related (by omega)
    (by omega)

/-! ## Entries of objects -/

section Expressions

variable {pairing : Pairing} {first second : Reader Expr} {leftBound rightBound : Nat}

theorem computedKey_match {one two : Option (Expr × List Char)} {left right : List Char} :
    Match (pairing.holds (']' :: expected)) left right one two →
    Match (pairing.holds expected) left right
      (match one with
        | some (inner, rest) => (mark? "]" rest).map fun behind => (Key.computed inner, behind)
        | none => none)
      (match two with
        | some (inner, rest) => (mark? "]" rest).map fun behind => (Key.computed inner, behind)
        | none => none) := by
  intro expression
  cases expression with
  | none => exact .none
  | some inner leftRest rightRest relatedRests leftShorter rightShorter =>
    exact ((pairing.closing rfl rfl relatedRests).map (Key.computed inner)).trans leftShorter
      rightShorter

theorem keyWith_match (nested : Paired pairing.holds leftBound rightBound first second)
    (related : pairing.holds expected left right) (leftBelow : left.length ≤ leftBound)
    (rightBelow : right.length ≤ rightBound) :
    Match (pairing.holds expected) left right (keyWith first left) (keyWith second right) := by
  have expression : Match (pairing.holds (']' :: expected)) left right
      ((mark? "[" left).bind first) ((mark? "[" right).bind second) :=
    (pairing.opening (c := '[') rfl rfl related).bind
      fun leftInside rightInside relatedInside leftShorter rightShorter =>
        nested _ leftInside rightInside relatedInside (by omega) (by omega)
  exact (((computedKey_match expression).orElse ((pairing.text related).map Key.fixed)).orElse
    ((pairing.number related).map fun digits => Key.fixed (String.ofList digits))).orElse
    ((pairing.name related).map Key.fixed)

theorem listenerEntry_match (nested : Paired pairing.holds leftBound rightBound first second)
    (related : pairing.holds ('\x7d' :: expected) left right) (leftBelow : left.length ≤ leftBound)
    (rightBelow : right.length ≤ rightBound) :
    Match (pairing.holds ('\x7d' :: expected)) left right (listenerEntry first left)
      (listenerEntry second right) := by
  have key := keyWith_match nested related leftBelow rightBelow
  unfold listenerEntry
  generalize keyWith first left = one at key ⊢
  generalize keyWith second right = two at key ⊢
  cases key with
  | none => exact .none
  | some key leftRest rightRest relatedRests leftShorter rightShorter =>
    have source : Match (pairing.holds ('\x7d' :: expected)) leftRest rightRest
        ((mark? ":" leftRest).bind listenerSource) ((mark? ":" rightRest).bind listenerSource) :=
      (pairing.inner (by decide) relatedRests).bind fun _ _ relatedEnds _ _ =>
        pairing.listener relatedEnds
    exact (source.map fun text => (key, text)).trans leftShorter rightShorter

theorem listenersEntry_match (nested : Paired pairing.holds leftBound rightBound first second)
    (related : pairing.holds expected left right) (leftBelow : left.length ≤ leftBound)
    (rightBelow : right.length ≤ rightBound) :
    Match (pairing.holds expected) left right (listenersEntry first left)
      (listenersEntry second right) := by
  have found := pairing.name related
  unfold listenersEntry
  generalize anyName left = one at found ⊢
  generalize anyName right = two at found ⊢
  cases found with
  | none => exact .none
  | some name leftRest rightRest relatedRests leftShorter rightShorter =>
    by_cases listens : (name == "on" || name == "nativeOn") = true
    · have entries : Match (pairing.holds expected) leftRest rightRest
          ((mark? ":" leftRest).bind (enclosed "\x7b" "\x7d" (listenerEntry first)))
          ((mark? ":" rightRest).bind (enclosed "\x7b" "\x7d" (listenerEntry second))) :=
        (pairing.inner (by decide) relatedRests).bind
          fun leftEnd rightEnd relatedEnds leftLess rightLess =>
            enclosed_match curlyPair relatedEnds
              fun leftItem rightItem relatedItems leftBelow rightBelow =>
                (listenerEntry_match nested relatedItems (by omega) (by omega)).weaken
      simp only [listens, if_true]
      exact (entries.map fun found => (Key.fixed name, Expr.listeners found)).trans leftShorter
        rightShorter
    · simp only [listens, Bool.false_eq_true, if_false]
      exact .none

theorem plainEntry_match (nested : Paired pairing.holds leftBound rightBound first second)
    (related : pairing.holds expected left right) (leftBelow : left.length ≤ leftBound)
    (rightBelow : right.length ≤ rightBound) :
    Match (pairing.holds expected) left right (plainEntry first left) (plainEntry second right) := by
  have key := keyWith_match nested related leftBelow rightBelow
  unfold plainEntry
  generalize keyWith first left = one at key ⊢
  generalize keyWith second right = two at key ⊢
  cases key with
  | none => exact .none
  | some key leftRest rightRest relatedRests leftShorter rightShorter =>
    have value : Match (pairing.holds expected) leftRest rightRest
        ((mark? ":" leftRest).bind first) ((mark? ":" rightRest).bind second) :=
      (pairing.inner (by decide) relatedRests).bind fun leftEnd rightEnd relatedEnds _ _ =>
        nested expected leftEnd rightEnd relatedEnds (by omega) (by omega)
    exact (value.map fun found => (key, found)).trans leftShorter rightShorter

theorem entryWith_match (nested : Paired pairing.holds leftBound rightBound first second)
    (related : pairing.holds expected left right) (leftBelow : left.length ≤ leftBound)
    (rightBelow : right.length ≤ rightBound) :
    Match (pairing.holds expected) left right (entryWith first left) (entryWith second right) :=
  (listenersEntry_match nested related leftBelow rightBelow).orElse
    (plainEntry_match nested related leftBelow rightBelow)

/-! ## Operands -/

theorem function_match (nested : Paired pairing.holds leftBound rightBound first second)
    (related : pairing.holds expected left right) (leftBelow : left.length ≤ leftBound)
    (rightBelow : right.length ≤ rightBound) :
    Match (pairing.holds expected) left right (function first left) (function second right) := by
  refine (word_match "function" related).bind fun _ _ relatedWord _ _ => ?_
  refine (enclosed_match roundPair relatedWord fun _ _ relatedItems _ _ =>
    (pattern_match relatedItems).weaken).bind fun parameters _ _ relatedParameters _ _ => ?_
  refine (pairing.opening (c := '\x7b') rfl rfl relatedParameters).bind
    fun _ _ relatedInside _ _ => ?_
  refine (pairing.inner (by decide) relatedInside).bind fun leftReturn rightReturn relatedReturn _ _ => ?_
  refine (nested _ leftReturn rightReturn relatedReturn (by omega) (by omega)).bind
    fun body _ _ relatedBody _ _ => ?_
  have isInner : isInnerMark ";" = true := by decide
  obtain ⟨relatedEnds, leftLess, rightLess⟩ := (pairing.inner isInner relatedBody).getD relatedBody
  exact ((pairing.closing rfl rfl relatedEnds).trans leftLess rightLess).bind_some
    (Expr.function parameters body)

theorem wordLiteral_match (related : pairing.holds expected left right) :
    Match (pairing.holds expected) left right (wordLiteral left) (wordLiteral right) := by
  have found := pairing.name related
  unfold wordLiteral
  generalize anyName left = one at found ⊢
  generalize anyName right = two at found ⊢
  cases found with
  | none => exact .none
  | some name leftRest rightRest relatedRests leftShorter rightShorter =>
    simp only
    repeat' split
    all_goals first
      | exact .none
      | exact .some _ leftRest rightRest relatedRests leftShorter rightShorter

theorem parenthesized_match (nested : Paired pairing.holds leftBound rightBound first second)
    (related : pairing.holds expected left right) (leftBelow : left.length ≤ leftBound)
    (rightBelow : right.length ≤ rightBound) :
    Match (pairing.holds expected) left right (parenthesized first left)
      (parenthesized second right) := by
  refine (pairing.opening (c := '(') rfl rfl related).bind
    fun leftInside rightInside relatedInside _ _ => ?_
  refine (nested _ leftInside rightInside relatedInside (by omega) (by omega)).bind
    fun inner _ _ relatedInner _ _ => ?_
  exact (pairing.closing rfl rfl relatedInner).bind_some inner

theorem primary_match (nested : Paired pairing.holds leftBound rightBound first second)
    (related : pairing.holds expected left right) (leftBelow : left.length ≤ leftBound)
    (rightBelow : right.length ≤ rightBound) :
    Match (pairing.holds expected) left right (primary first left) (primary second right) := by
  have entries := enclosedWithComma_match curlyPair related fun _ _ relatedItems _ _ =>
    (entryWith_match nested relatedItems (by omega) (by omega)).weaken
  have items := enclosed_match squarePair related fun leftItem rightItem relatedItems _ _ =>
    (nested _ leftItem rightItem relatedItems (by omega) (by omega)).weaken
  refine (function_match nested related leftBelow rightBelow).orElse ?_
  refine (entries.map Expr.record).orElse ?_
  refine (items.map Expr.list).orElse ?_
  refine ((pairing.text related).map fun content => Expr.literal (.string content)).orElse ?_
  refine ((pairing.number related).map fun digits =>
    Expr.literal (.number ((Number.read? digits).getD Number.notANumber))).orElse ?_
  refine (wordLiteral_match related).orElse ?_
  refine ((variableName_match related).map Expr.name).orElse ?_
  exact parenthesized_match nested related leftBelow rightBelow

theorem access_match (nested : Paired pairing.holds leftBound rightBound first second)
    (related : pairing.holds expected left right) (leftBelow : left.length ≤ leftBound)
    (rightBelow : right.length ≤ rightBound) :
    Match (pairing.holds expected) left right (access first left) (access second right) := by
  have property : Match (pairing.holds expected) left right ((mark? "." left).bind anyName)
      ((mark? "." right).bind anyName) :=
    (pairing.inner (by decide) related).bind fun _ _ relatedRests _ _ => pairing.name relatedRests
  have arguments := enclosed_match roundPair related fun leftItem rightItem relatedItems _ _ =>
    (nested _ leftItem rightItem relatedItems (by omega) (by omega)).weaken
  refine ((property.map Access.member).orElse ?_).orElse (arguments.map Access.call)
  refine (pairing.opening (c := '[') rfl rfl related).bind
    fun leftInside rightInside relatedInside _ _ => ?_
  refine (nested _ leftInside rightInside relatedInside (by omega) (by omega)).bind
    fun key _ _ relatedKey _ _ => ?_
  exact (pairing.closing rfl rfl relatedKey).bind_some (Access.index key)

theorem operand_match (nested : Paired pairing.holds leftBound rightBound first second)
    (related : pairing.holds expected left right) (leftBelow : left.length ≤ leftBound)
    (rightBelow : right.length ≤ rightBound) :
    Match (pairing.holds expected) left right (operand first left) (operand second right) := by
  have found := primary_match nested related leftBelow rightBelow
  unfold operand
  generalize primary first left = one at found ⊢
  generalize primary second right = two at found ⊢
  cases found with
  | none => exact .none
  | some target leftRest rightRest relatedRests leftShorter rightShorter =>
    have accesses := many_match (access first) (access second) relatedRests
      fun _ _ relatedItems _ _ => access_match nested relatedItems (by omega) (by omega)
    simp only [accesses.result]
    exact .some _ _ _ accesses.related (Nat.lt_of_le_of_lt accesses.leftBound leftShorter)
      (Nat.lt_of_le_of_lt accesses.rightBound rightShorter)

/-! ## Operators -/

theorem skipBlanks_skipBlanks (source : List Char) :
    skipBlanks (skipBlanks source) = skipBlanks source :=
  List.dropWhile_idempotent _ _

theorem word_skipBlanks (word : String) (source : List Char) :
    word? word (skipBlanks source) = word? word source := by
  simp only [word?, anyName, skipBlanks_skipBlanks]

theorem unaryOperator_eq (source : List Char) :
    unaryOperator source =
      ((mark? "!" source).map fun rest => (UnaryOperator.not, rest)).orElse fun _ =>
      ((mark? "-" source).map fun rest => (UnaryOperator.negate, rest)).orElse fun _ =>
      ((mark? "+" source).map fun rest => (UnaryOperator.plus, rest)).orElse fun _ =>
      ((word? "typeof" source).map fun rest => (UnaryOperator.typeOf, rest)).orElse fun _ =>
        (word? "void" source).map fun rest => (UnaryOperator.void, rest) := by
  rw [← word_skipBlanks "typeof", ← word_skipBlanks "void"]
  unfold unaryOperator mark?
  generalize skipBlanks source = start
  split
  · rfl
  · rfl
  · rfl
  · next noNot noNegate noPlus =>
    cases start with
    | nil => rfl
    | cons c rest =>
      have notMark : '!' ≠ c := fun same => noNot rest (same ▸ rfl)
      have negateMark : '-' ≠ c := fun same => noNegate rest (same ▸ rfl)
      have plusMark : '+' ≠ c := fun same => noPlus rest (same ▸ rfl)
      simp [dropLeading?, notMark, negateMark, plusMark]

theorem unaryOperator_match (related : pairing.holds expected left right) :
    Match (pairing.holds expected) left right (unaryOperator left) (unaryOperator right) := by
  rw [unaryOperator_eq, unaryOperator_eq]
  refine ((pairing.inner (by decide) related).map UnaryOperator.not).orElse ?_
  refine ((pairing.inner (by decide) related).map UnaryOperator.negate).orElse ?_
  refine ((pairing.inner (by decide) related).map UnaryOperator.plus).orElse ?_
  exact ((word_match "typeof" related).map UnaryOperator.typeOf).orElse
    ((word_match "void" related).map UnaryOperator.void)

theorem unary_match (nested : Paired pairing.holds leftBound rightBound first second)
    (related : pairing.holds expected left right) (leftBelow : left.length ≤ leftBound)
    (rightBelow : right.length ≤ rightBound) :
    Match (pairing.holds expected) left right (unary first left) (unary second right) := by
  have operators := many_match unaryOperator unaryOperator related
    fun _ _ relatedItems _ _ => unaryOperator_match relatedItems
  have inner := operand_match nested operators.related
    (Nat.le_trans operators.leftBound leftBelow) (Nat.le_trans operators.rightBound rightBelow)
  unfold unary
  simp only [operators.result]
  exact (inner.map fun operand =>
    (many unaryOperator right).1.foldr Expr.unary operand).trans_le operators.leftBound
    operators.rightBound

theorem binaryOperator_match {level : List (String × BinaryOperator)}
    (inner : ∀ entry ∈ level, isInnerMark entry.1 = true)
    (related : pairing.holds expected left right) :
    Match (pairing.holds expected) left right (binaryOperator level left)
      (binaryOperator level right) := by
  induction level with
  | nil => exact .none
  | cons entry others ih =>
    have found := (pairing.inner (inner entry List.mem_cons_self) related).map entry.2
    have others := ih fun other held => inner other (List.mem_cons_of_mem entry held)
    unfold binaryOperator at others ⊢
    simp only [List.findSome?_cons]
    generalize (mark? entry.1 left).map _ = one at found ⊢
    generalize (mark? entry.1 right).map _ = two at found ⊢
    cases found with
    | none => exact others
    | some operator leftRest rightRest relatedRests leftShorter rightShorter =>
      exact .some operator leftRest rightRest relatedRests leftShorter rightShorter

theorem continuation_match {level : List (String × BinaryOperator)}
    (inner : ∀ entry ∈ level, isInnerMark entry.1 = true)
    (tighter : Paired pairing.holds leftBound rightBound first second)
    (related : pairing.holds expected left right) (leftBelow : left.length ≤ leftBound)
    (rightBelow : right.length ≤ rightBound) :
    Match (pairing.holds expected) left right (continuation level first left)
      (continuation level second right) := by
  have operator := binaryOperator_match inner related
  unfold continuation
  generalize binaryOperator level left = one at operator ⊢
  generalize binaryOperator level right = two at operator ⊢
  cases operator with
  | none => exact .none
  | some operator leftRest rightRest relatedRests leftShorter rightShorter =>
    have operand := tighter expected leftRest rightRest relatedRests (by omega) (by omega)
    exact (operand.map fun value => (operator, value)).trans leftShorter rightShorter

theorem chain_match {level : List (String × BinaryOperator)}
    (inner : ∀ entry ∈ level, isInnerMark entry.1 = true)
    (tighter : Paired pairing.holds leftBound rightBound first second)
    (related : pairing.holds expected left right) (leftBelow : left.length < leftBound)
    (rightBelow : right.length < rightBound) :
    Match (pairing.holds expected) left right (chain level first left) (chain level second right) := by
  have found := tighter expected left right related leftBelow rightBelow
  unfold chain
  generalize first left = one at found ⊢
  generalize second right = two at found ⊢
  cases found with
  | none => exact .none
  | some operand leftRest rightRest relatedRests leftShorter rightShorter =>
    have others := many_match (continuation level first)
      (continuation level second) relatedRests fun _ _ relatedItems _ _ =>
        continuation_match inner tighter relatedItems (by omega) (by omega)
    simp only [others.result]
    exact .some _ _ _ others.related (Nat.lt_of_le_of_lt others.leftBound leftShorter)
      (Nat.lt_of_le_of_lt others.rightBound rightShorter)

theorem binary_match (levels : List (List (String × BinaryOperator)))
    (inner : ∀ level ∈ levels, ∀ entry ∈ level, isInnerMark entry.1 = true)
    (nested : Paired pairing.holds leftBound rightBound first second) :
    Paired pairing.holds (leftBound + 1) (rightBound + 1) (binary first levels) (binary second levels) := by
  induction levels with
  | nil =>
    intro expected left right related leftBelow rightBelow
    exact unary_match nested related (by omega) (by omega)
  | cons level tighter ih =>
    intro expected left right related leftBelow rightBelow
    exact chain_match (inner level List.mem_cons_self)
      (ih fun other held => inner other (List.mem_cons_of_mem level held)) related leftBelow rightBelow

/-! ## Expressions -/

theorem outcomes_match (nested : Paired pairing.holds leftBound rightBound first second)
    (related : pairing.holds expected left right) (leftBelow : left.length ≤ leftBound)
    (rightBelow : right.length ≤ rightBound) :
    Match (pairing.holds expected) left right (outcomes first left) (outcomes second right) := by
  refine (pairing.inner (by decide) related).bind fun leftTest rightTest relatedTest _ _ => ?_
  refine (nested _ leftTest rightTest relatedTest (by omega) (by omega)).bind
    fun whenTrue _ _ relatedTrue _ _ => ?_
  refine (pairing.inner (by decide) relatedTrue).bind fun leftColon rightColon relatedColon _ _ => ?_
  exact (nested _ leftColon rightColon relatedColon (by omega) (by omega)).bind_some
    fun whenFalse => (whenTrue, whenFalse)

theorem expressionWith_match (nested : Paired pairing.holds leftBound rightBound first second)
    (related : pairing.holds expected left right) (leftBelow : left.length ≤ leftBound)
    (rightBelow : right.length ≤ rightBound) :
    Match (pairing.holds expected) left right (expressionWith first left)
      (expressionWith second right) := by
  have test := binary_match operatorLevels (by decide) nested expected left right related
    (by omega) (by omega)
  unfold expressionWith
  generalize binary first operatorLevels left = one at test ⊢
  generalize binary second operatorLevels right = two at test ⊢
  cases test with
  | none => exact .none
  | some test leftRest rightRest relatedRests leftShorter rightShorter =>
    have found := outcomes_match nested relatedRests (by omega) (by omega)
    simp only
    generalize outcomes first leftRest = one at found ⊢
    generalize outcomes second rightRest = two at found ⊢
    cases found with
    | none => exact .some test leftRest rightRest relatedRests leftShorter rightShorter
    | some branches leftEnd rightEnd relatedEnds leftLess rightLess =>
      exact .some _ leftEnd rightEnd relatedEnds (Nat.lt_trans leftLess leftShorter)
        (Nat.lt_trans rightLess rightShorter)

theorem expressionIn_match : ∀ (leftDepth rightDepth : Nat),
    Paired pairing.holds leftDepth rightDepth (expressionIn leftDepth) (expressionIn rightDepth) := by
  intro leftDepth
  induction leftDepth with
  | zero => intro rightDepth expected left right related leftBelow; omega
  | succ leftDepth ih =>
    intro rightDepth expected left right related leftBelow rightBelow
    cases rightDepth with
    | zero => omega
    | succ rightDepth =>
      exact expressionWith_match (ih rightDepth) related (by omega) (by omega)

theorem expression_match (related : pairing.holds expected left right) :
    Match (pairing.holds expected) left right (expression left) (expression right) :=
  expressionIn_match (left.length + 1) (right.length + 1) expected left right related (by omega)
    (by omega)

end Expressions

end Templating.Expression.Grammar
