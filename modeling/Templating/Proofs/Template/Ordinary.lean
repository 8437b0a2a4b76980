import Mathlib.Data.List.Forall2
import Templating.Proofs.Markup.Written
import Templating.Proofs.Template.Names
import Templating.Proofs.Translation.Literal
/-!
# Ordinary attributes

No rule takes an attribute whose name is ordinary: it is a literal attribute of
the element, with the value that its markup was escaped from.
-/
set_option autoImplicit false

namespace Templating.Template

open Templating.Text Templating.Data Templating.Markup

/-- A name that is no directive and means nothing to an element. -/
structure IsOrdinaryName (name : String) : Prop where
  nonempty : name ≠ ""
  plain : ∀ c ∈ name.toList, isPlainNameChar c = true
  noDirective : startsWith ['v', '-'] name.toList = false
  unused : name ∉ ["key", "ref", "slot", "is"]

instance (name : String) : Decidable (IsOrdinaryName name) :=
  decidable_of_iff (name ≠ "" ∧ name.toList.all isPlainNameChar = true ∧
      startsWith ['v', '-'] name.toList = false ∧ name ∉ ["key", "ref", "slot", "is"])
    ⟨fun ⟨nonempty, plain, noDirective, unused⟩ =>
        ⟨nonempty, List.all_eq_true.mp plain, noDirective, unused⟩,
      fun ordinary => ⟨ordinary.nonempty, List.all_eq_true.mpr ordinary.plain,
        ordinary.noDirective, ordinary.unused⟩⟩

def Says (item : SourceAttribute) (pair : String × String) : Prop :=
  item.name = pair.1 ∧ item.value = some pair.2

theorem distinctAttributes_written (tag : String) {items : List SourceAttribute}
    {pairs : List (String × String)} (written : List.Forall₂ IsWritten items pairs)
    (names : (pairs.map Prod.fst).Nodup) (seen : List String) (unseen : ∀ pair ∈ pairs, pair.1 ∉ seen) :
    List.Forall₂ Says (Builder.distinctAttributes tag seen items).1 pairs := by
  induction written generalizing seen with
  | nil => exact .nil
  | @cons item pair items pairs first others ih =>
    obtain ⟨named, valued⟩ := first
    rw [List.map_cons, List.nodup_cons] at names
    obtain ⟨here, behind⟩ := List.forall_mem_cons.mp unseen
    have fresh : seen.contains item.name = false := by simpa [named] using here
    rw [Builder.distinctAttributes, fresh, if_neg (by simp)]
    refine .cons ⟨named, ?_⟩ (ih names.2 _ fun other held => ?_)
    · simp only [valued, Option.map_some, decodeAttribute_escape]
    · rw [List.mem_cons, not_or, named]
      exact ⟨fun same => names.1 (List.mem_map.mpr ⟨other, held, same⟩), behind other held⟩

theorem ordinary_of_said {items : List SourceAttribute} {pairs : List (String × String)}
    (said : List.Forall₂ Says items pairs) (named : ∀ pair ∈ pairs, IsOrdinaryName pair.1) :
    ∀ item ∈ items, IsOrdinaryName item.name := by
  induction said with
  | nil => exact fun _ held => by cases held
  | cons first others ih =>
    obtain ⟨here, behind⟩ := List.forall_mem_cons.mp named
    exact List.forall_mem_cons.mpr ⟨first.1 ▸ here, ih behind⟩

theorem literals_of_said {items : List SourceAttribute} {pairs : List (String × String)}
    (said : List.Forall₂ Says items pairs) :
    (items.map fun item => (item.name, item.value.getD "")) = pairs := by
  induction said with
  | nil => rfl
  | cons first others ih => rw [List.map_cons, ih, first.1, first.2, Option.getD_some]

def IsOrdinary (head : Head) : Prop := ∀ item ∈ head.pending, IsOrdinaryName item.name

/-! ## Names -/

section Name

variable {name : String} (ordinary : IsOrdinaryName name)

include ordinary

theorem not_prefix_directive (rest : List Char) : ¬ 'v' :: '-' :: rest <+: name.toList := by
  rintro ⟨behind, begins⟩
  have noDirective := ordinary.noDirective
  rw [← begins] at noDirective
  simp [startsWith, dropLeading?] at noDirective

theorem not_prefix_mark {c : Char} (mark : isPlainNameChar c = false) (rest : List Char) :
    ¬c :: rest <+: name.toList := by
  rintro ⟨behind, begins⟩
  have plain := ordinary.plain c (begins ▸ List.mem_cons_self)
  rw [mark] at plain
  cases plain

theorem not_isDirective : AttributeName.isDirective name = false := by
  unfold AttributeName.isDirective
  split
  · next rest begins => exact absurd ⟨rest, begins.symm⟩ (not_prefix_directive ordinary [])
  · next rest begins => exact absurd ⟨rest, begins.symm⟩ (not_prefix_mark ordinary (by decide) [])
  · next rest begins => exact absurd ⟨rest, begins.symm⟩ (not_prefix_mark ordinary (by decide) [])
  · next rest begins => exact absurd ⟨rest, begins.symm⟩ (not_prefix_mark ordinary (by decide) [])
  · rfl

theorem not_isSlotName : Head.isSlotName name = false := by
  have noName : name ≠ "v-slot" := by
    rintro rfl
    exact not_prefix_directive ordinary _ (List.prefix_refl _)
  have noLong : (AttributeName.after? "v-slot:" name).isSome = false :=
    Bool.eq_false_iff.mpr fun found =>
      not_prefix_directive ordinary _ ((after_isSome_iff "v-slot:" name).mp found)
  have noShort : (AttributeName.after? "#" name).isSome = false :=
    Bool.eq_false_iff.mpr fun found =>
      not_prefix_mark ordinary (by decide) _ ((after_isSome_iff "#" name).mp found)
  rw [Head.isSlotName, noLong, noShort, beq_eq_false_iff_ne.mpr noName]
  rfl

end Name

/-! ## Rules -/

theorem takeFirst_none {accepts : SourceAttribute → Bool} {head : Head}
    (refused : ∀ item ∈ head.pending, accepts item = false) : head.takeFirst? accepts = none := by
  have found : head.pending.find? accepts = none := by simpa using refused
  rw [Head.takeFirst?, found]
  rfl

section Head

variable {head : Head} (ordinary : IsOrdinary head)

include ordinary

theorem take_directive {name : String} {rest : List Char} (directive : name.toList = 'v' :: '-' :: rest) :
    head.take? name = none := by
  refine takeFirst_none fun item held => beq_eq_false_iff_ne.mpr ?_
  rintro rfl
  exact not_prefix_directive (ordinary item held) rest (directive ▸ List.prefix_refl _)

theorem take_unused {name : String} (unused : name ∈ ["key", "ref", "slot", "is"]) :
    head.take? name = none := by
  refine takeFirst_none fun item held => beq_eq_false_iff_ne.mpr ?_
  rintro rfl
  exact (ordinary item held).unused unused

theorem takeBinding_none (name : String) : head.takeBinding? name = none := by
  refine takeFirst_none fun item held => ?_
  have noShort : item.name ≠ ":" ++ name := by
    intro same
    refine not_prefix_mark (ordinary item held) (by decide : isPlainNameChar ':' = false) [] ⟨name.toList, ?_⟩
    rw [same, String.toList_append]
    rfl
  have noLong : item.name ≠ "v-bind:" ++ name := by
    intro same
    refine not_prefix_directive (ordinary item held) ['b', 'i', 'n', 'd', ':'] ⟨name.toList, ?_⟩
    rw [same, String.toList_append]
    rfl
  rw [beq_eq_false_iff_ne.mpr noShort, beq_eq_false_iff_ne.mpr noLong]
  rfl

theorem takeExpression_unused {name : String} (unused : name ∈ ["key", "ref", "slot", "is"]) :
    head.takeExpression? name = none := by
  rw [Head.takeExpression?, takeBinding_none ordinary, take_unused ordinary unused]
  rfl

theorem takeStructure_ordinary : head.takeStructure = (head, []) := by
  have loop : head.takeLoop = (head, []) := by
    rw [Head.takeLoop, take_directive ordinary rfl]
  have condition : head.takeCondition = (head, []) := by
    rw [Head.takeCondition, take_directive ordinary rfl, take_directive ordinary rfl,
      take_directive ordinary rfl]
  have once : head.takeOnce = head := by
    rw [Head.takeOnce, take_directive ordinary rfl]
  simp only [Head.takeStructure, loop, condition, once, List.append_nil]

theorem enter_ordinary {outside : Builder} (plain : outside.verbatimRoot = none) :
    outside.enter head = (head, none, []) := by
  rw [Builder.enter, Builder.isVerbatim, plain, take_directive ordinary rfl]
  simp only [Option.isSome_none, Bool.false_eq_true, if_false, takeStructure_ordinary ordinary]

theorem rules_ordinary (noOutlet : head.tag ≠ "slot") :
    head.takeKey = (head, []) ∧ head.takeRef = head ∧ head.takeSlotTarget = (head, []) ∧
      head.takeOutlet = (head, []) ∧ head.takeComponent = head := by
  have slotNames : (head.takeFirst? fun item => Head.isSlotName item.name) = none :=
    takeFirst_none fun item held => not_isSlotName (ordinary item held)
  refine ⟨?_, ?_, ?_, ?_, ?_⟩
  · rw [Head.takeKey, takeExpression_unused ordinary (by simp)]
  · rw [Head.takeRef, takeBinding_none ordinary, take_unused ordinary (by simp)]
  · rw [Head.takeSlotTarget, takeExpression_unused ordinary (by simp), slotNames]
  · rw [Head.takeOutlet, beq_eq_false_iff_ne.mpr noOutlet]
    rfl
  · rw [Head.takeComponent, takeExpression_unused ordinary (by simp)]

end Head

theorem addAttributes_ordinary (settings : Settings) {items : List SourceAttribute}
    (ordinary : ∀ item ∈ items, IsOrdinaryName item.name) (head : Head) :
    (Head.addAttributes settings items head).1 =
      { head with attributes := head.attributes ++
          items.map fun item => Attribute.literal item.name (item.value.getD "") item.span } := by
  induction items generalizing head with
  | nil => simp [Head.addAttributes]
  | cons item rest ih =>
    obtain ⟨here, behind⟩ := List.forall_mem_cons.mp ordinary
    have added : (head.addAttribute settings item).1 =
        { head with attributes := head.attributes ++
            [Attribute.literal item.name (item.value.getD "") item.span] } := by
      rw [Head.addAttribute, not_isDirective here]
      rfl
    rw [Head.addAttributes]
    simp only [ih behind, added, List.map_cons, List.append_assoc, List.singleton_append]

/-- Without extensions all that is pending becomes literal attributes when the
element closes. -/
theorem complete_ordinary {settings : Settings} (bare : settings.extensions = []) {head : Head}
    (ordinary : IsOrdinary head) (noOutlet : head.tag ≠ "slot") :
    (head.complete settings).1 = head.takeVerbatim := by
  obtain ⟨key, ref, slotTarget, outlet, component⟩ := rules_ordinary ordinary noOutlet
  rw [Head.complete, key]
  simp only [ref, slotTarget, outlet, component, bare, Head.applyExtensions]
  rw [addAttributes_ordinary settings ordinary]
  rfl

end Templating.Template
