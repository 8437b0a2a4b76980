import Templating.Proofs.Template.Marking
/-!
# What loops repeat

A template element or an outlet is no node of its own: what is below it stands
in its place, and so do the branches of an element.  A static root that stands
so in a loop is shown in each turn.  The analysis marks no root below the loop
of a template, except for a verbatim element or what is below an outlet.
-/
set_option autoImplicit false

namespace Templating.Rendering

open Templating.Template

/-- What is below the element stands in its place. -/
def isTransparent (head : Head) : Bool :=
  head.tag == "template" && head.slotTarget.isNone && !head.isVerbatim || head.tag == "slot"

mutual

/-- A static root is among what stands in the place of the element. -/
def showsRoot (annotations : Annotations) : Element → Bool
  | ⟨head, children, branches⟩ =>
    (annotations.get head.id).isRoot || isTransparent head && nodesShowRoot annotations children ||
      branchesShowRoot annotations branches

def nodesShowRoot (annotations : Annotations) : List Node → Bool
  | [] => false
  | .element element :: rest => showsRoot annotations element || nodesShowRoot annotations rest
  | .text _ :: rest => nodesShowRoot annotations rest
  | .comment _ :: rest => nodesShowRoot annotations rest

def branchesShowRoot (annotations : Annotations) : List Branch → Bool
  | [] => false
  | ⟨_, block⟩ :: rest => showsRoot annotations block || branchesShowRoot annotations rest

end

/-- Apart from the element itself, a static root stands in its place. -/
def showsRootInside (annotations : Annotations) (element : Element) : Bool :=
  isTransparent element.head && nodesShowRoot annotations element.children ||
    branchesShowRoot annotations element.branches

theorem showsRoot_eq (annotations : Annotations) (element : Element) :
    showsRoot annotations element =
      ((annotations.get element.head.id).isRoot || showsRootInside annotations element) := by
  obtain ⟨head, children, branches⟩ := element
  rw [showsRoot, showsRootInside, Bool.or_assoc]

def RepeatsNoRoot (annotations : Annotations) (element : Element) : Prop :=
  element.head.loop.isSome = true → showsRootInside annotations element = false

instance (annotations : Annotations) : DecidablePred (RepeatsNoRoot annotations) := fun element =>
  inferInstanceAs (Decidable (element.head.loop.isSome = true →
    showsRootInside annotations element = false))

/-! ## Below the loop of a template -/

/-- What is below the element is as the analysis expects it in a loop: nothing is
below an outlet, and in a template all is `fresh`. -/
def isOpen (head : Head) (childless fresh : Bool) : Bool :=
  if head.tag == "slot" then childless else !isTransparent head || fresh

mutual

/-- What stands in the place of the element is not verbatim, and it is not what
an outlet shows if nothing is given. -/
def isFresh : Element → Bool
  | ⟨head, children, branches⟩ =>
    !head.isVerbatim && isOpen head children.isEmpty (nodesFresh children) && branchesFresh branches

def nodesFresh : List Node → Bool
  | [] => true
  | .element element :: rest => isFresh element && nodesFresh rest
  | .text _ :: rest => nodesFresh rest
  | .comment _ :: rest => nodesFresh rest

def branchesFresh : List Branch → Bool
  | [] => true
  | ⟨_, block⟩ :: rest => isFresh block && branchesFresh rest

end

/-- If the element is repeated, it has no branches, and what is below it is
fresh. -/
def RepeatsFreshly (element : Element) : Prop :=
  element.head.loop.isSome = true → element.branches.isEmpty = true ∧
    isOpen element.head element.children.isEmpty (nodesFresh element.children) = true

instance : DecidablePred RepeatsFreshly := fun element =>
  inferInstanceAs (Decidable (element.head.loop.isSome = true → element.branches.isEmpty = true ∧
    isOpen element.head element.children.isEmpty (nodesFresh element.children) = true))

section Analysis

variable {settings : Settings} {annotations : Annotations}

/-- What is looked at as repeated by a template is no root, unless it is
verbatim. -/
theorem isRoot_of_repeated {element : Element} {around : Surroundings}
    (plain : element.head.isVerbatim = false) (repeated : around.inTemplateLoop = true) :
    (element.flags settings around).isRoot = false := by
  simp [Element.flags, Head.flags, Element.isStatic_eq, Head.isStatic, plain, repeated]

theorem nodesShowRoot_of_isOpen {head : Head} {children : List Node}
    (inside : isOpen head children.isEmpty (nodesFresh children) = true)
    (template : head.tag = "template" → nodesFresh children = true →
      nodesShowRoot annotations children = false) :
    (isTransparent head && nodesShowRoot annotations children) = false := by
  cases transparent : isTransparent head with
  | false => rfl
  | true =>
    by_cases outlet : head.tag = "slot"
    · rw [isOpen, outlet, if_pos (beq_self_eq_true "slot"), List.isEmpty_iff] at inside
      rw [inside]
      rfl
    · simp only [isTransparent, Bool.or_eq_true, Bool.and_eq_true, beq_iff_eq, outlet, or_false]
        at transparent
      rw [isOpen, if_neg (by simpa using outlet), Bool.or_eq_true, Bool.not_eq_true'] at inside
      refine template transparent.1.1 (inside.resolve_left fun solid => ?_)
      simp [isTransparent, transparent] at solid

mutual

theorem showsRoot_of_fresh {around : Surroundings} (element : Element)
    (holds : annotations.Holds (element.annotate settings around))
    (repeated : around.inTemplateLoop = true) (fresh : isFresh element = true) :
    showsRoot annotations element = false := by
  match element with
  | ⟨head, children, branches⟩ =>
    simp only [isFresh, Bool.and_eq_true, Bool.not_eq_true'] at fresh
    obtain ⟨⟨plain, below⟩, beside⟩ := fresh
    have own : (annotations.get head.id).isRoot = false :=
      (congrArg Flags.isRoot holds.own).trans (isRoot_of_repeated plain repeated)
    have inside := nodesShowRoot_of_isOpen below fun template =>
      nodesShowRoot_of_fresh children (fun child held => holds.child held)
        (by simp [Head.surroundChildren, Head.repeatsChildren, template, repeated])
    have others := branchesShowRoot_of_fresh branches (fun branch held => holds.branch held) repeated beside
    rw [showsRoot, own, inside, others]
    rfl

theorem nodesShowRoot_of_fresh {around : Surroundings} (nodes : List Node)
    (holds : ∀ node ∈ nodes, annotations.Holds (node.annotate settings around))
    (repeated : around.inTemplateLoop = true) (fresh : nodesFresh nodes = true) :
    nodesShowRoot annotations nodes = false := by
  match nodes with
  | [] => rfl
  | .element element :: rest =>
    obtain ⟨here, later⟩ := List.forall_mem_cons.mp holds
    rw [nodesFresh, Bool.and_eq_true] at fresh
    rw [nodesShowRoot, showsRoot_of_fresh element here repeated fresh.1,
      nodesShowRoot_of_fresh rest later repeated fresh.2]
    rfl
  | .text _ :: rest => exact nodesShowRoot_of_fresh rest (List.forall_mem_cons.mp holds).2 repeated fresh
  | .comment _ :: rest => exact nodesShowRoot_of_fresh rest (List.forall_mem_cons.mp holds).2 repeated fresh

theorem branchesShowRoot_of_fresh {around : Surroundings} (branches : List Branch)
    (holds : ∀ branch ∈ branches, annotations.Holds (branch.block.annotate settings around))
    (repeated : around.inTemplateLoop = true) (fresh : branchesFresh branches = true) :
    branchesShowRoot annotations branches = false := by
  match branches with
  | [] => rfl
  | ⟨_, block⟩ :: rest =>
    obtain ⟨here, later⟩ := List.forall_mem_cons.mp holds
    rw [branchesFresh, Bool.and_eq_true] at fresh
    rw [branchesShowRoot, showsRoot_of_fresh block here repeated fresh.1,
      branchesShowRoot_of_fresh rest later repeated fresh.2]
    rfl

end

theorem repeatsNoRoot_of_freshly {around : Surroundings} {element : Element}
    (holds : annotations.Holds (element.annotate settings around)) (freshly : RepeatsFreshly element) :
    RepeatsNoRoot annotations element := by
  intro looped
  obtain ⟨unbranched, below⟩ := freshly looped
  have inside := nodesShowRoot_of_isOpen below fun template =>
    nodesShowRoot_of_fresh element.children (fun child held => holds.child held)
      (by simp [Head.surroundChildren, Head.repeatsChildren, template, looped])
  rw [showsRootInside, inside, List.isEmpty_iff.mp unbranched]
  rfl

end Analysis

/-- In a template that has been read, no loop shows a root where all that loops
repeat is fresh. -/
theorem analyze_repeatsNoRoot {settings : Settings} (faithful : settings.IsFaithful)
    (keeps : ∀ extension ∈ settings.extensions, extension.KeepsNumber) (source : String) :
    let document := (Document.parse settings source).1
    (∀ root ∈ document.root, root.Throughout RepeatsFreshly) →
      ∀ root ∈ document.root, root.Throughout (RepeatsNoRoot (document.analyze settings)) := by
  intro document freshly root held above element lineage
  have settled := parse_settled faithful source root held
  have holds := analyze_holds keeps source root held
  obtain ⟨around, here, -⟩ := lineage.holds settled holds
  exact repeatsNoRoot_of_freshly here (freshly root held above element lineage)

end Templating.Rendering
