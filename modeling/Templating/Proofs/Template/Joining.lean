import Templating.Proofs.Template.Chains
import Templating.Proofs.Template.Spacing
/-!
# Elements that come to their places

Many rules on a tree look at one element at a time, and at no more of its children than
their heads.  Such a rule holds throughout what has been read wherever an element has
come to: at the end of its parent, in a branch of the element before it, or at the root.
-/
set_option autoImplicit false

namespace Templating.Template

/-- The predicate goes by the heads of the children, and by no more than the first ones of
them; with the branch it holds of an element as without. -/
structure Element.Joins (holds : Element → Prop) (branch : Element) : Prop where
  fewer : ∀ {element : Element} {children : List Node}, children <+: element.children →
    holds element → holds { element with children }
  changed : ∀ (element previous changed : Element) (front : List Node),
    changed.head = previous.head → holds { element with children := front ++ [.element previous] } →
      holds { element with children := front ++ [.element changed] }
  joined : ∀ {element : Element}, holds element → holds (element.addBranch branch)
  block : holds branch.asBranch.block

section Joins

variable {holds : Element → Prop} {element parent branch : Element}

theorem Element.Throughout.fresh {head : Head} (own : holds ⟨head, [], []⟩) :
    Element.Throughout holds ⟨head, [], []⟩ := by
  refine Element.throughout_iff.mpr ⟨own, ?_, ?_⟩
  · intro child held
    cases held
  · intro branch held
    cases held

theorem Element.Throughout.withParts (all : element.Throughout holds) {head : Head}
    {children : List Node} (own : holds { element with head, children })
    (part : ∀ node ∈ children, node ∈ element.children) :
    Element.Throughout holds { element with head, children } := by
  obtain ⟨-, below⟩ := Element.throughout_iff.mp all
  refine Element.throughout_iff.mpr ⟨own, ?_, below.branches⟩
  intro child held
  exact below.children child (part _ held)

theorem Element.Throughout.addChild (all : parent.Throughout holds) {node : Node}
    (own : holds (parent.addChild node))
    (inside : ∀ child, node = .element child → child.Throughout holds) :
    (parent.addChild node).Throughout holds := by
  obtain ⟨-, below⟩ := Element.throughout_iff.mp all
  refine Element.throughout_iff.mpr ⟨own, ?_, below.branches⟩
  intro child held
  rcases List.mem_append.mp held with held | held
  · exact below.children child held
  · exact inside child (List.mem_singleton.mp held).symm

variable (joins : Element.Joins holds branch) (inside : branch.Throughout holds)

include joins inside

theorem Element.Throughout.addBranch (all : element.Throughout holds) :
    (element.addBranch branch).Throughout holds := by
  obtain ⟨own, below⟩ := Element.throughout_iff.mp all
  refine Element.throughout_iff.mpr ⟨joins.joined own, below.children, ?_⟩
  intro other held
  rcases List.mem_append.mp held with held | held
  · exact below.branches other held
  · cases List.mem_singleton.mp held
    exact inside.withHead joins.block

theorem attachBranch_throughout (all : parent.Throughout holds) :
    (attachBranch parent branch).1.Throughout holds := by
  have front : (dropToElement parent.children.reverse).1.reverse <+: parent.children := by
    rw [← List.reverse_suffix, List.reverse_reverse]
    exact dropToElement_suffix _
  unfold attachBranch
  simp only
  generalize (dropToElement parent.children.reverse).2 = diagnostics
  generalize (dropToElement parent.children.reverse).1 = backwards at front ⊢
  obtain ⟨own, below⟩ := Element.throughout_iff.mp all
  have kept : Element.Throughout holds { parent with children := backwards.reverse } :=
    all.withParts (joins.fewer front own) fun node held => front.subset held
  split
  · next previous earlier =>
    split
    · have last : previous.Throughout holds :=
        below.children previous (front.subset (List.mem_reverse.mpr List.mem_cons_self))
      obtain ⟨keptOwn, keptBelow⟩ := Element.throughout_iff.mp kept
      rw [List.reverse_cons] at keptOwn ⊢
      refine Element.throughout_iff.mpr ⟨joins.changed parent previous _ _ rfl keptOwn, ?_, below.branches⟩
      intro child held
      rcases List.mem_append.mp held with held | held
      · apply keptBelow.children
        exact List.mem_reverse.mpr (List.mem_cons_of_mem _ (List.mem_reverse.mp held))
      · cases List.mem_singleton.mp held
        exact Element.Throughout.addBranch joins inside last
    · exact kept
  · exact kept

theorem Builder.place_throughout {builder : Builder}
    (opened : ∀ element ∈ builder.opened, element.Throughout holds)
    (root : ∀ root ∈ builder.root, root.Throughout holds)
    (child : ∀ parent ∈ builder.opened.head?, holds parent → holds (parent.addChild (.element branch))) :
    (∀ element ∈ (builder.place branch).opened, element.Throughout holds) ∧
      ∀ root ∈ (builder.place branch).root, root.Throughout holds := by
  unfold Builder.place
  cases given : builder.opened with
  | cons parent outer =>
    rw [given] at opened child
    obtain ⟨first, others⟩ := List.forall_mem_cons.mp opened
    simp only
    split
    · exact ⟨given ▸ opened, root⟩
    · split
      · exact ⟨List.forall_mem_cons.mpr ⟨attachBranch_throughout joins inside first, others⟩, root⟩
      · have own := child parent rfl (Element.throughout_iff.mp first).1
        have added : (parent.addChild (.element branch)).Throughout holds := by
          refine first.addChild own ?_
          rintro _ ⟨⟩
          exact inside
        exact ⟨List.forall_mem_cons.mpr ⟨added, others⟩, root⟩
  | nil =>
    rw [given] at opened
    simp only
    split
    · refine ⟨given ▸ opened, ?_⟩
      rintro _ ⟨⟩
      exact inside
    · next previous held =>
      split
      · refine ⟨given ▸ opened, ?_⟩
        rintro _ ⟨⟩
        exact Element.Throughout.addBranch joins inside (root previous held)
      · exact ⟨given ▸ opened, root⟩

end Joins

end Templating.Template
