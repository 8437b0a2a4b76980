import Templating.Template.Element
/-!
# Every head of a tree

A predicate on heads that holds throughout a tree, except in the parts that are
taken as they are written.
-/
set_option autoImplicit false

namespace Templating.Template

mutual

/-- The predicate holds of every head outside verbatim parts. -/
def Element.EveryHead (holds : Head → Prop) : Element → Prop
  | ⟨head, children, branches⟩ =>
    head.isVerbatim = true ∨
      holds head ∧ EveryHeadOfNodes holds children ∧ EveryHeadOfBranches holds branches

def Node.EveryHead (holds : Head → Prop) : Node → Prop
  | .element element => element.EveryHead holds
  | _ => True

def EveryHeadOfNodes (holds : Head → Prop) : List Node → Prop
  | [] => True
  | node :: rest => node.EveryHead holds ∧ EveryHeadOfNodes holds rest

def EveryHeadOfBranches (holds : Head → Prop) : List Branch → Prop
  | [] => True
  | ⟨_, block⟩ :: rest => block.EveryHead holds ∧ EveryHeadOfBranches holds rest

end

def Document.EveryHead (holds : Head → Prop) (document : Document) : Prop :=
  ∀ root ∈ document.root, root.EveryHead holds

/-! ## Deciding -/

section Decide

variable (holds : Head → Prop) [DecidablePred holds]

mutual

def Element.decideEveryHead : (element : Element) → Decidable (element.EveryHead holds)
  | ⟨head, children, branches⟩ =>
    have := decideEveryHeadOfNodes children
    have := decideEveryHeadOfBranches branches
    inferInstanceAs (Decidable (head.isVerbatim = true ∨
      holds head ∧ EveryHeadOfNodes holds children ∧ EveryHeadOfBranches holds branches))

def Node.decideEveryHead : (node : Node) → Decidable (node.EveryHead holds)
  | .element element => element.decideEveryHead
  | .text _ => .isTrue trivial
  | .comment _ => .isTrue trivial

def decideEveryHeadOfNodes : (nodes : List Node) → Decidable (EveryHeadOfNodes holds nodes)
  | [] => .isTrue trivial
  | node :: rest =>
    have := node.decideEveryHead
    have := decideEveryHeadOfNodes rest
    inferInstanceAs (Decidable (node.EveryHead holds ∧ EveryHeadOfNodes holds rest))

def decideEveryHeadOfBranches :
    (branches : List Branch) → Decidable (EveryHeadOfBranches holds branches)
  | [] => .isTrue trivial
  | ⟨_, block⟩ :: rest =>
    have := block.decideEveryHead
    have := decideEveryHeadOfBranches rest
    inferInstanceAs (Decidable (block.EveryHead holds ∧ EveryHeadOfBranches holds rest))

end

instance : DecidablePred (Element.EveryHead holds) := Element.decideEveryHead holds

instance (document : Document) : Decidable (document.EveryHead holds) :=
  inferInstanceAs (Decidable (∀ root ∈ document.root, root.EveryHead holds))

end Decide

/-! ## Combining -/

section Combine

variable {first second both : Head → Prop}

mutual

theorem Element.EveryHead.and (combine : ∀ head, first head → second head → both head)
    (element : Element) (one : element.EveryHead first) (two : element.EveryHead second) :
    element.EveryHead both := by
  match element, one, two with
  | ⟨_, _, _⟩, .inl verbatim, _ => exact .inl verbatim
  | ⟨_, _, _⟩, _, .inl verbatim => exact .inl verbatim
  | ⟨head, children, branches⟩, .inr ⟨here, below, beside⟩, .inr ⟨hereToo, belowToo, besideToo⟩ =>
    exact .inr ⟨combine head here hereToo, EveryHeadOfNodes.and combine children below belowToo,
      EveryHeadOfBranches.and combine branches beside besideToo⟩

theorem Node.EveryHead.and (combine : ∀ head, first head → second head → both head) (node : Node)
    (one : node.EveryHead first) (two : node.EveryHead second) : node.EveryHead both := by
  match node with
  | .element element => exact Element.EveryHead.and combine element one two
  | .text _ => trivial
  | .comment _ => trivial

theorem EveryHeadOfNodes.and (combine : ∀ head, first head → second head → both head)
    (nodes : List Node) (one : EveryHeadOfNodes first nodes)
    (two : EveryHeadOfNodes second nodes) : EveryHeadOfNodes both nodes := by
  match nodes with
  | [] => trivial
  | node :: rest =>
    exact ⟨Node.EveryHead.and combine node one.1 two.1, EveryHeadOfNodes.and combine rest one.2 two.2⟩

theorem EveryHeadOfBranches.and (combine : ∀ head, first head → second head → both head)
    (branches : List Branch) (one : EveryHeadOfBranches first branches)
    (two : EveryHeadOfBranches second branches) : EveryHeadOfBranches both branches := by
  match branches with
  | [] => trivial
  | ⟨_, block⟩ :: rest =>
    exact ⟨Element.EveryHead.and combine block one.1 two.1,
      EveryHeadOfBranches.and combine rest one.2 two.2⟩

end

theorem Document.EveryHead.and (combine : ∀ head, first head → second head → both head)
    {document : Document} (one : document.EveryHead first)
    (two : document.EveryHead second) : document.EveryHead both := fun root held =>
  Element.EveryHead.and combine root (one root held) (two root held)

end Combine

/-! ## Below an element -/

section Below

variable {holds : Head → Prop} {parent : Element} (every : parent.EveryHead holds)
  (plain : parent.head.isVerbatim = false)

include every plain

theorem Element.EveryHead.own : holds parent.head := by
  obtain ⟨head, children, branches⟩ := parent
  exact (every.resolve_left (Bool.eq_false_iff.mp plain)).1

theorem Element.EveryHead.child {child : Element} (held : .element child ∈ parent.children) :
    child.EveryHead holds := by
  obtain ⟨head, children, branches⟩ := parent
  have nodes := (every.resolve_left (Bool.eq_false_iff.mp plain)).2.1
  clear every plain
  induction children with
  | nil => cases held
  | cons node rest ih =>
    rcases List.mem_cons.mp held with rfl | held
    · exact nodes.1
    · exact ih held nodes.2

theorem Element.EveryHead.branch {branch : Branch} (held : branch ∈ parent.branches) :
    branch.block.EveryHead holds := by
  obtain ⟨head, children, branches⟩ := parent
  have blocks := (every.resolve_left (Bool.eq_false_iff.mp plain)).2.2
  clear every plain
  induction branches with
  | nil => cases held
  | cons first rest ih =>
    obtain ⟨condition, block⟩ := first
    rcases List.mem_cons.mp held with rfl | held
    · exact blocks.1
    · exact ih held blocks.2

end Below

end Templating.Template
