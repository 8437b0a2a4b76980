import Mathlib.Data.List.Forall2
import Templating.Evaluation.Builtin
import Templating.Proofs.Number.Counts
import Templating.Proofs.Translation.Meaning
/-!
# Marks of static nodes

What a fragment adds to its nodes: they are marked as static, and have keys.
-/
set_option autoImplicit false

namespace Templating.Tree

/-- The same props, but for the marks of what is static. -/
def Props.Marks (marked plain : Props) : Prop :=
  marked = plain ∨
    marked.isStatic = true ∧ { marked with isStatic := plain.isStatic, key := plain.key } = plain

theorem Props.Marks.again {marked plain : Props} (marks : marked.Marks plain) (key : String) :
    ({ marked with isStatic := true, key := some key } : Props).Marks plain := by
  rcases marks with rfl | ⟨-, same⟩
  · exact .inr ⟨rfl, rfl⟩
  · exact .inr ⟨rfl, same⟩

theorem Props.Marks.listeners {marked plain : Props} (marks : marked.Marks plain) :
    marked.listeners = plain.listeners := by
  rcases marks with rfl | ⟨-, same⟩
  · rfl
  · rw [← same]

namespace Node

mutual

/-- The first tree is the second one, but for the marks of the nodes that it
says are static. -/
def Marks : Node → Node → Prop
  | .element tag props children, other =>
    ∃ otherProps others, other = .element tag otherProps others ∧ props.Marks otherProps ∧
      AllMark children others
  | .text content, other => other = .text content
  | .comment content, other => other = .comment content

def AllMark : List Node → List Node → Prop
  | [], others => others = []
  | node :: rest, others =>
    ∃ other behind, others = other :: behind ∧ Marks node other ∧ AllMark rest behind

end

mutual

theorem Marks.refl (node : Node) : node.Marks node := by
  match node with
  | .element tag props children => exact ⟨props, children, rfl, .inl rfl, AllMark.refl children⟩
  | .text _ => rfl
  | .comment _ => rfl

theorem AllMark.refl (nodes : List Node) : AllMark nodes nodes := by
  match nodes with
  | [] => rfl
  | node :: rest => exact ⟨node, rest, rfl, Marks.refl node, AllMark.refl rest⟩

end

theorem AllMark.append {nodes others behind othersBehind : List Node} (first : AllMark nodes others)
    (second : AllMark behind othersBehind) : AllMark (nodes ++ behind) (others ++ othersBehind) := by
  induction nodes generalizing others with
  | nil =>
    obtain rfl : others = [] := first
    exact second
  | cons node rest ih =>
    obtain ⟨other, left, rfl, marks, more⟩ := first
    exact ⟨other, left ++ othersBehind, rfl, marks, ih more⟩

theorem AllMark.split {nodes behind others : List Node} (all : AllMark (nodes ++ behind) others) :
    ∃ first second, others = first ++ second ∧ AllMark nodes first ∧ AllMark behind second := by
  induction nodes generalizing others with
  | nil => exact ⟨[], others, rfl, rfl, all⟩
  | cons node rest ih =>
    obtain ⟨other, left, rfl, marks, more⟩ := all
    obtain ⟨first, second, rfl, front, back⟩ := ih more
    exact ⟨other :: first, second, rfl, ⟨other, first, rfl, marks, front⟩, back⟩

theorem AllMark.single {node other : Node} (marks : node.Marks other) : AllMark [node] [other] :=
  ⟨other, [], rfl, marks, rfl⟩

end Node

end Templating.Tree

namespace Templating.Evaluation

open Templating.Data Templating.Expression Templating.Rendering Templating.Tree

/-! ## Calls of fragments -/

def fragmentCall (index : Nat) (inLoop : Bool) : Expr :=
  helperCall "_m" (numberExpr index :: if inLoop then [booleanExpr true] else [])

theorem fragmentIndex_numeral {index : Nat} (small : index < Number.twoTo 53) (rest : List Datum) :
    fragmentIndex? (.ofNumber (Number.nearest false index 1) :: rest) = some index := by
  rw [Datum.ofNumber, fragmentIndex?, if_pos (Number.nearest_nonneg small),
    Number.wholePart_nearest small]

/-! ## Content -/

theorem nodesOfAll_map (nodes : List Node) : nodesOfAll (nodes.map Datum.node) = nodes := by
  induction nodes with
  | nil => rfl
  | cons node rest ih => rw [List.map_cons, nodesOfAll, ih]; rfl

/-- Both stand for the same nodes, but for marks of the first. -/
inductive SameContent : Datum → Datum → Prop where
  | node {marked plain : Node} : marked.Marks plain → SameContent (.node marked) (.node plain)
  | list {items others : List Datum} :
    Node.AllMark (nodesOfAll items) (nodesOfAll others) → SameContent (.list items) (.list others)
  | same (datum : Datum) : SameContent datum datum

namespace SameContent

theorem nodes {marked plain : Datum} (same : SameContent marked plain) :
    Node.AllMark (nodesOf marked) (nodesOf plain) := by
  cases same with
  | node marks => exact .single marks
  | list all => exact all
  | same datum => exact .refl _

theorem all {items others : List Datum} (same : List.Forall₂ SameContent items others) :
    Node.AllMark (nodesOfAll items) (nodesOfAll others) := by
  induction same with
  | nil => exact rfl
  | cons first rest ih => exact first.nodes.append ih

end SameContent

mutual

theorem markStatic_nodes (key : String) (datum : Datum) {others : List Node}
    (all : Node.AllMark (nodesOf datum) others) : Node.AllMark (nodesOf (markStatic key datum)) others := by
  match datum with
  | .node (.element tag props children) =>
    obtain ⟨other, behind, rfl, ⟨otherProps, below, rfl, marks, inside⟩, rest⟩ := all
    exact ⟨_, behind, rfl, ⟨otherProps, below, rfl, marks.again key, inside⟩, rest⟩
  | .list items => exact markAllStatic_nodes key 0 items all
  | .node (.text _) => exact all
  | .node (.comment _) => exact all
  | .plain _ => exact all
  | .record _ => exact all
  | .listeners _ => exact all
  | .closure _ _ _ => exact all

theorem markAllStatic_nodes (key : String) (position : Nat) (items : List Datum) {others : List Node}
    (all : Node.AllMark (nodesOfAll items) others) :
    Node.AllMark (nodesOfAll (markAllStatic key position items)) others := by
  match items with
  | [] => exact all
  | item :: rest =>
    obtain ⟨first, second, rfl, front, back⟩ := Node.AllMark.split all
    exact (markStatic_nodes _ item front).append (markAllStatic_nodes key (position + 1) rest back)

end

def Datum.IsThere : Datum → Prop
  | .node _ | .list _ => True
  | _ => False

theorem SameContent.isThere {marked plain : Datum} (same : SameContent marked plain) :
    marked.IsThere ↔ plain.IsThere := by
  cases same <;> exact Iff.rfl

theorem SameContent.markStatic {marked plain : Datum} (same : SameContent marked plain) (key : String) :
    SameContent (Evaluation.markStatic key marked) plain := by
  have stamped {node other : Node} (marks : node.Marks other) :
      SameContent (Evaluation.markStatic key (.node node)) (.node other) := by
    cases node with
    | element tag props children =>
      obtain ⟨otherProps, others, rfl, given, below⟩ := marks
      exact .node ⟨otherProps, others, rfl, given.again key, below⟩
    | text content => exact .node marks
    | comment content => exact .node marks
  cases same with
  | node marks => exact stamped marks
  | list all => exact .list (markAllStatic_nodes key 0 _ all)
  | same =>
    cases marked with
    | node node => exact stamped (.refl node)
    | list items => exact .list (markAllStatic_nodes key 0 items (.refl _))
    | plain _ => exact .same _
    | record _ => exact .same _
    | listeners _ => exact .same _
    | closure _ _ _ => exact .same _

theorem markStatic_node (key : String) (node : Node) :
    ∃ marked, Evaluation.markStatic key (.node node) = .node marked := by
  cases node <;> exact ⟨_, rfl⟩

theorem SameContent.fragment {marked plain : Datum} (same : SameContent marked plain)
    (there : plain.IsThere) (index : Nat) :
    ∃ kept, Fragment.ofDatum index marked = .ok kept ∧ SameContent kept.toDatum plain := by
  have content := same.markStatic ("__static__" ++ toString index)
  have thereToo := same.isThere.mpr there
  rw [Fragment.ofDatum]
  cases marked with
  | node node =>
    obtain ⟨root, stamped⟩ := markStatic_node ("__static__" ++ toString index) node
    rw [stamped] at content ⊢
    exact ⟨.node root, rfl, content⟩
  | list items =>
    cases plain with
    | list others =>
      refine ⟨_, rfl, .list ?_⟩
      rw [nodesOfAll_map]
      exact content.nodes
    | plain _ | node _ | record _ | listeners _ | closure _ _ _ => cases same
  | plain _ | record _ | listeners _ | closure _ _ _ => cases thereToo

theorem Fragment.isThere (kept : Fragment) : kept.toDatum.IsThere := by
  cases kept <;> trivial

end Templating.Evaluation
