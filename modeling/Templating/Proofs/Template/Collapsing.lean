import Templating.Proofs.Text.Search
import Templating.Proofs.Text.Trimming
import Templating.Template.Builder
/-!
# Expressions in condensed text

Delimiters without blanks are found in a condensed text where they are found in the
text itself.  So condensing changes the expressions between them in one way only: runs
of blanks inside them become single spaces.
-/
set_option autoImplicit false

namespace Templating.Template

open Templating.Text Builder

/-- Runs of blanks become single spaces. -/
def collapsed (s : String) : String := String.ofList (condense false s.toList)

def IsSolid (pattern : List Char) : Prop := ∀ c ∈ pattern, isAsciiBlank c = false

instance (pattern : List Char) : Decidable (IsSolid pattern) :=
  decidable_of_iff (pattern.all fun c => !isAsciiBlank c) (by simp [IsSolid])

def Segment.binding? : Segment → Option String
  | .literal _ => none
  | .binding expression => some expression

def bindingsIn (delimiters : Delimiters) (content : String) : List String :=
  ((interpolations? delimiters content).getD []).filterMap Segment.binding?

section Condense

variable {pattern : List Char} {pending : Bool}

theorem condense_blank_cons {c : Char} (blank : isAsciiBlank c = true) (rest : List Char) :
    condense pending (c :: rest) =
      if pending then condense true rest else ' ' :: condense true rest := by
  rw [condense, if_pos blank]

theorem condense_visible_cons {c : Char} (visible : isAsciiBlank c = false) (rest : List Char) :
    condense pending (c :: rest) = c :: condense false rest := by
  rw [condense, if_neg (Bool.eq_false_iff.mp visible)]

theorem ne_of_solid {p c : Char} (solid : isAsciiBlank p = false) (blank : isAsciiBlank c = true) :
    p ≠ c := by
  rintro rfl
  exact Bool.noConfusion (solid.symm.trans blank)

/-! ## Search -/

theorem dropLeading_condense (solid : IsSolid pattern) (source : List Char) :
    dropLeading? pattern (condense false source) =
      (dropLeading? pattern source).map (condense false) := by
  induction pattern generalizing source with
  | nil => rfl
  | cons p pattern ih =>
    obtain ⟨first, others⟩ := List.forall_mem_cons.mp solid
    cases source with
    | nil => rfl
    | cons c rest =>
      cases visible : isAsciiBlank c with
      | true =>
        rw [condense_blank_cons visible, if_neg Bool.false_ne_true,
          dropLeading_cons_ne (ne_of_solid first visible), dropLeading_cons_ne (ne_of_solid first rfl)]
        rfl
      | false =>
        rw [condense_visible_cons visible, dropLeading?, dropLeading?, ih others]
        split <;> rfl

theorem dropLeading_blank (nonempty : pattern ≠ []) (solid : IsSolid pattern) {c : Char}
    (blank : isAsciiBlank c = true) (rest : List Char) : dropLeading? pattern (c :: rest) = none := by
  cases pattern with
  | nil => exact absurd rfl nonempty
  | cons p pattern => exact dropLeading_cons_ne (ne_of_solid (solid p List.mem_cons_self) blank)

/-- The pattern is found at the same place, and parts the text into the same texts, condensed. -/
theorem breakAt_condense (nonempty : pattern ≠ []) (solid : IsSolid pattern) (source : List Char) :
    breakAt? pattern (condense pending source) =
      (breakAt? pattern source).map fun found => (condense pending found.1, condense false found.2) := by
  induction source generalizing pending with
  | nil =>
    cases pattern with
    | nil => exact absurd rfl nonempty
    | cons p pattern => rfl
  | cons c rest ih =>
    cases visible : isAsciiBlank c with
    | true =>
      rw [condense_blank_cons visible, breakAt_cons (dropLeading_blank nonempty solid visible rest)]
      cases pending with
      | true =>
        rw [if_pos rfl, ih, Option.map_map]
        simp [Function.comp_def, condense_blank_cons visible]
      | false =>
        rw [if_neg Bool.false_ne_true, breakAt_cons (dropLeading_blank nonempty solid rfl _), ih,
          Option.map_map, Option.map_map]
        simp [Function.comp_def, condense_blank_cons visible]
    | false =>
      have front := dropLeading_condense solid (c :: rest)
      rw [condense_visible_cons visible] at front ⊢
      cases here : dropLeading? pattern (c :: rest) with
      | some after =>
        rw [here] at front
        rw [breakAt?, front, breakAt?, here]
        rfl
      | none =>
        rw [here] at front
        rw [breakAt_cons front, breakAt_cons here, ih, Option.map_map, Option.map_map]
        simp [Function.comp_def, condense_visible_cons visible]

/-! ## Trimming -/

theorem isBlank_of_isAsciiBlank {c : Char} (blank : isAsciiBlank c = true) : isBlank c = true := by
  simp only [isAsciiBlank, Bool.or_eq_true, beq_iff_eq] at blank
  rcases blank with (((rfl | rfl) | rfl) | rfl) | rfl <;> rfl

theorem condense_all_blank {blanks : List Char} (blank : ∀ c ∈ blanks, isBlank c = true) :
    ∀ c ∈ condense pending blanks, isBlank c = true := by
  induction blanks generalizing pending with
  | nil => exact fun _ held => by cases held
  | cons first rest ih =>
    obtain ⟨here, behind⟩ := List.forall_mem_cons.mp blank
    cases visible : isAsciiBlank first with
    | true =>
      rw [condense_blank_cons visible]
      split
      · exact ih behind
      · exact List.forall_mem_cons.mpr ⟨rfl, ih behind⟩
    | false =>
      rw [condense_visible_cons visible]
      exact List.forall_mem_cons.mpr ⟨here, ih behind⟩

theorem trimStart_condense (source : List Char) :
    trimStart (condense pending source) = condense false (trimStart source) := by
  induction source generalizing pending with
  | nil => rfl
  | cons c rest ih =>
    unfold trimStart at ih ⊢
    cases visible : isAsciiBlank c with
    | true =>
      have blank := isBlank_of_isAsciiBlank visible
      rw [condense_blank_cons visible, List.dropWhile_cons_of_pos blank]
      split
      · exact ih
      · rw [List.dropWhile_cons_of_pos (by rfl)]
        exact ih
    | false =>
      rw [condense_visible_cons visible]
      cases blank : isBlank c with
      | true =>
        rw [List.dropWhile_cons_of_pos blank, List.dropWhile_cons_of_pos blank]
        exact ih
      | false =>
        rw [List.dropWhile_cons_of_neg (by simp [blank]), List.dropWhile_cons_of_neg (by simp [blank]),
          condense_visible_cons visible]

theorem condense_append (source rest : List Char) :
    ∃ behind, condense pending (source ++ rest) = condense pending source ++ condense behind rest := by
  induction source generalizing pending with
  | nil => exact ⟨pending, rfl⟩
  | cons c source ih =>
    rw [List.cons_append]
    cases visible : isAsciiBlank c with
    | true =>
      obtain ⟨behind, same⟩ := @ih true
      refine ⟨behind, ?_⟩
      rw [condense_blank_cons visible, condense_blank_cons visible, same]
      split <;> rfl
    | false =>
      obtain ⟨behind, same⟩ := @ih false
      refine ⟨behind, ?_⟩
      rw [condense_visible_cons visible, condense_visible_cons visible, same]
      rfl

theorem trimEnd_condense (source : List Char) :
    trimEnd (condense pending source) = condense pending (trimEnd source) := by
  have parts : source = trimEnd source ++ (source.reverse.takeWhile isBlank).reverse := by
    rw [trimEnd, ← List.reverse_append, List.takeWhile_append_dropWhile, List.reverse_reverse]
  have blank : ∀ c ∈ (source.reverse.takeWhile isBlank).reverse, isBlank c = true := fun c held =>
    List.all_eq_true.mp List.all_takeWhile c (List.mem_reverse.mp held)
  generalize (source.reverse.takeWhile isBlank).reverse = blanks at parts blank
  obtain ⟨behind, same⟩ := @condense_append pending (trimEnd source) blanks
  rw [← parts] at same
  rw [same, trimEnd_append_blanks (condense_all_blank blank)]
  rcases trimEnd_cases source with none | ⟨before, c, ends, visible⟩
  · rw [none]
    rfl
  · have solid : isAsciiBlank c = false := by
      by_contra ascii
      rw [isBlank_of_isAsciiBlank (by simpa using ascii)] at visible
      cases visible
    obtain ⟨inside, condensed⟩ := @condense_append pending before [c]
    rw [condense_visible_cons solid] at condensed
    rw [ends, condensed]
    exact trimEnd_concat _ visible

theorem trim_condense (source : List Char) :
    trim (condense pending source) = condense false (trim source) := by
  rw [trim, trimStart_condense, trimEnd_condense, trim]

theorem condense_eq_nil_iff (source : List Char) : condense false source = [] ↔ source = [] := by
  cases source with
  | nil => exact iff_of_true rfl rfl
  | cons c rest =>
    refine iff_of_false ?_ (List.cons_ne_nil _ _)
    unfold condense
    split <;> exact List.cons_ne_nil _ _

end Condense

/-! ## Cutting -/

section Cutting

variable {opening closing : List Char}

theorem bindings_ofLiteral (content : List Char) :
    (Segment.ofLiteral content).filterMap Segment.binding? = [] := by
  unfold Segment.ofLiteral
  split <;> rfl

theorem splitFrom_none (fuel : Nat) (pending : List Char) {source : List Char}
    (none : breakAt? opening source = none) :
    Segment.splitFrom opening closing fuel pending source = Segment.ofLiteral (pending ++ source) := by
  cases fuel with
  | zero => rfl
  | succ fuel => rw [Segment.splitFrom, none]

/-- Each expression is cut out of the condensed text as well, condensed. -/
theorem splitFrom_condense (nonempty : opening ≠ [] ∧ closing ≠ []) (solid : IsSolid opening)
    (solidClosing : IsSolid closing) {fuel otherFuel : Nat} {source : List Char} (pending : Bool)
    (enough : source.length ≤ fuel) (otherEnough : (condense pending source).length ≤ otherFuel)
    (literal otherLiteral : List Char) :
    (Segment.splitFrom opening closing otherFuel otherLiteral (condense pending source)).filterMap
        Segment.binding? =
      ((Segment.splitFrom opening closing fuel literal source).filterMap Segment.binding?).map
        collapsed := by
  induction fuel generalizing otherFuel source pending literal otherLiteral with
  | zero =>
    obtain rfl := List.eq_nil_of_length_eq_zero (Nat.le_zero.mp enough)
    have none : breakAt? opening [] = none := by
      cases opening with
      | nil => exact absurd rfl nonempty.1
      | cons => rfl
    rw [show condense pending [] = [] from rfl, splitFrom_none _ _ none, splitFrom_none _ _ none,
      bindings_ofLiteral, bindings_ofLiteral]
    rfl
  | succ fuel ih =>
    have found := @breakAt_condense opening pending nonempty.1 solid source
    cases first : breakAt? opening source with
    | none =>
      rw [first] at found
      rw [splitFrom_none _ _ first, splitFrom_none _ _ found, bindings_ofLiteral, bindings_ofLiteral]
      rfl
    | some parts =>
      obtain ⟨before, inside⟩ := parts
      rw [first, Option.map_some] at found
      have longer : 0 < opening.length := List.length_pos_iff.mpr nonempty.1
      have parts := congrArg List.length (breakAt_eq_some first)
      have otherParts := congrArg List.length (breakAt_eq_some found)
      simp only [List.length_append] at parts otherParts
      obtain ⟨otherFuel, rfl⟩ : ∃ less, otherFuel = less + 1 := Nat.exists_eq_succ_of_ne_zero (by omega)
      have closed := @breakAt_condense closing false nonempty.2 solidClosing inside
      rw [Segment.splitFrom, Segment.splitFrom, first, found]
      simp only
      cases second : breakAt? closing inside with
      | none =>
        rw [second, Option.map_none] at closed
        simp only [closed, bindings_ofLiteral, List.map_nil]
      | some found =>
        obtain ⟨expression, after⟩ := found
        rw [second, Option.map_some] at closed
        have rest := congrArg List.length (breakAt_eq_some second)
        have otherRest := congrArg List.length (breakAt_eq_some closed)
        simp only [List.length_append] at rest otherRest
        simp only [closed, trim_condense, List.isEmpty_iff, condense_eq_nil_iff]
        split
        · exact ih false (by omega) (by omega) _ _
        · rw [List.filterMap_append, List.filterMap_append, bindings_ofLiteral, bindings_ofLiteral,
            List.nil_append, List.nil_append]
          simp only [List.filterMap_cons, Segment.binding?, List.map_cons, collapsed,
            String.toList_ofList]
          rw [ih false (by omega) (by omega) [] []]

theorem bindingsIn_eq (delimiters : Delimiters) (content : String) :
    bindingsIn delimiters content =
      if delimiters.areUsable then
        (Segment.splitFrom delimiters.opening.toList delimiters.closing.toList
          content.toList.length [] content.toList).filterMap Segment.binding?
      else [] := by
  unfold bindingsIn interpolations?
  split
  · simp only
    split
    · rfl
    · next none =>
      refine (List.filterMap_eq_nil_iff.mpr fun segment held => ?_).symm
      cases segment with
      | literal content => rfl
      | binding expression => exact absurd (List.any_eq_true.mpr ⟨_, held, rfl⟩) none
  · rfl

end Cutting

theorem Delimiters.areUsable.nonempty {delimiters : Delimiters} (usable : delimiters.areUsable = true) :
    delimiters.opening.toList ≠ [] ∧ delimiters.closing.toList ≠ [] := by
  rw [Delimiters.areUsable, Bool.and_eq_true_iff, bne_iff_ne, bne_iff_ne] at usable
  exact ⟨fun none => usable.1 (String.toList_eq_nil_iff.mp none),
    fun none => usable.2 (String.toList_eq_nil_iff.mp none)⟩

/-- Where the delimiters hold no blanks, the expressions of a condensed text are those of the
text, condensed. -/
theorem bindingsIn_collapsed {delimiters : Delimiters} (solid : IsSolid delimiters.opening.toList)
    (solidClosing : IsSolid delimiters.closing.toList) (content : String) :
    bindingsIn delimiters (collapsed content) = (bindingsIn delimiters content).map collapsed := by
  rw [bindingsIn_eq, bindingsIn_eq]
  split
  · next usable =>
    rw [collapsed, String.toList_ofList]
    exact splitFrom_condense (Delimiters.areUsable.nonempty usable) solid solidClosing false (Nat.le_refl _) (Nat.le_refl _) [] []
  · rfl

theorem bindingsIn_blank {delimiters : Delimiters} (solid : IsSolid delimiters.opening.toList)
    {content : String} (blank : ∀ c ∈ content.toList, isAsciiBlank c = true) :
    bindingsIn delimiters content = [] := by
  rw [bindingsIn_eq]
  split
  · next usable =>
    have nonempty := (Delimiters.areUsable.nonempty usable).1
    have none : breakAt? delimiters.opening.toList content.toList = none := by
      generalize content.toList = source at blank
      induction source with
      | nil =>
        cases given : delimiters.opening.toList with
        | nil => exact absurd given nonempty
        | cons => rfl
      | cons c rest ih =>
        obtain ⟨first, others⟩ := List.forall_mem_cons.mp blank
        rw [breakAt_cons (dropLeading_blank nonempty solid first rest), ih others]
        rfl
    rw [splitFrom_none _ _ none, bindings_ofLiteral]
  · rfl

end Templating.Template
