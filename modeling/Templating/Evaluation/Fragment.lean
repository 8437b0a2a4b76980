import Templating.Evaluation.Construction
/-!
# Fragments of a render

A fragment is rendered once and kept: it is a node, or the nodes of a list, and
all of them carry its marks.
-/
set_option autoImplicit false

namespace Templating.Evaluation

inductive Halt where
  | fault (fault : Fault)
  /-- Functions call each other more deeply than a render goes. -/
  | tooDeep
deriving DecidableEq, Repr

inductive Fragment where
  | node (node : Tree.Node)
  | nodes (nodes : List Tree.Node)
deriving Inhabited

namespace Fragment

def toDatum : Fragment → Datum
  | .node root => .node root
  | .nodes roots => .list (roots.map .node)

def ofDatum (index : Nat) (result : Datum) : Except Fault Fragment :=
  match markStatic ("__static__" ++ toString index) result with
  | .node root => .ok (.node root)
  | .list items => .ok (.nodes (nodesOfAll items))
  | other => if other.isNullish then .ok (.node (.comment "")) else .error (.notANode other.kind)

end Fragment

abbrev FragmentCache := List (Nat × Fragment)

/-- A step of a render.  What it keeps stays kept when the render fails. -/
abbrev Eval := ExceptT Halt (StateM FragmentCache)

namespace Eval

def ofExcept {α : Type} : Except Fault α → Eval α
  | .ok result => pure result
  | .error fault => throw (.fault fault)

def fail {α : Type} (fault : Fault) : Eval α := throw (.fault fault)

end Eval

end Templating.Evaluation
