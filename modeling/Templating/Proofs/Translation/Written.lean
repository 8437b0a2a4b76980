import Templating.Proofs.Template.Lineage
import Templating.Rendering.Compilation
/-!
# Elements that are written

Writing goes from an element to its children and its branches, and takes with it
the keys of the loops it is in.  Of the branches, those behind one without a
condition are never reached.
-/
set_option autoImplicit false

namespace Templating.Rendering

open Templating.Template

def loopsInside (head : Head) (loops : List (Option String)) : List (Option String) :=
  if head.loop.isSome then head.key :: loops else loops

/-- The loops around the branches of an element.  A condition is inside the loop
of its element, unless the element is rendered once. -/
def loopsBeside (head : Head) (loops : List (Option String)) : List (Option String) :=
  if head.isOnce then loops else loopsInside head loops

/-- Writing the first element inside its loops comes to the last one inside those
that are around it then. -/
inductive Written : Element → List (Option String) → Element → List (Option String) → Prop where
  | here (element : Element) (loops : List (Option String)) : Written element loops element loops
  | child {parent child element : Element} {loops inner : List (Option String)}
      (held : .element child ∈ parent.children)
      (inside : Written child (loopsInside parent.head loops) element inner) :
    Written parent loops element inner
  | branch {parent element : Element} {before behind : List Branch} {branch : Branch}
      {loops inner : List (Option String)} (chosen : parent.head.condition.isSome = true)
      (given : parent.branches = before ++ branch :: behind)
      (conditional : ∀ earlier ∈ before, earlier.condition.isSome = true)
      (beside : Written branch.block (loopsBeside parent.head loops) element inner) :
    Written parent loops element inner

/-- Only the last branch of the element may lack a condition. -/
def EndsChain (element : Element) : Prop :=
  ∀ branch ∈ element.branches.dropLast, branch.condition.isSome = true

instance : DecidablePred EndsChain := fun element =>
  inferInstanceAs (Decidable (∀ branch ∈ element.branches.dropLast, branch.condition.isSome = true))

theorem EndsChain.before {element : Element} (ends : EndsChain element) {before behind : List Branch}
    {branch : Branch} (given : element.branches = before ++ branch :: behind) :
    ∀ earlier ∈ before, earlier.condition.isSome = true := by
  intro earlier held
  apply ends
  rw [given, List.dropLast_append_of_ne_nil (List.cons_ne_nil _ _)]
  exact List.mem_append_left _ held

/-- Where no branch is behind one without a condition, every element is reached. -/
theorem lineage_written {trusted : Prop} {root element : Element} {above : List Element}
    (lineage : Lineage root above element) (placed : root.Throughout (Element.IsPlaced trusted))
    (ends : root.Throughout EndsChain) (loops : List (Option String)) :
    ∃ inner, Written root loops element inner := by
  induction lineage generalizing loops with
  | here element => exact ⟨loops, .here element loops⟩
  | @child parent child element above held lineage ih =>
    have placedChild := (Element.throughout_iff.mp placed).2.children child held
    have endsChild := (Element.throughout_iff.mp ends).2.children child held
    obtain ⟨inner, written⟩ := ih placedChild endsChild (loopsInside parent.head loops)
    exact ⟨inner, .child held written⟩
  | @branch parent element branch above held lineage ih =>
    obtain ⟨ownPlaced, belowPlaced⟩ := Element.throughout_iff.mp placed
    obtain ⟨ownEnds, belowEnds⟩ := Element.throughout_iff.mp ends
    obtain ⟨before, behind, given⟩ := List.append_of_mem held
    have chosen := ownPlaced.condition (List.ne_nil_of_mem held)
    obtain ⟨inner, written⟩ := ih (belowPlaced.branches branch held)
      (belowEnds.branches branch held) (loopsBeside parent.head loops)
    exact ⟨inner, .branch chosen given (ownEnds.before given) written⟩

end Templating.Rendering
