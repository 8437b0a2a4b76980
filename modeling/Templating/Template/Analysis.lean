import Templating.Template.Settings
/-!
# Static analysis

A node is static when nothing in it depends on data.  A static root is a static
element with children that no static root is above; such an element is rendered
once, as a fragment.
-/
set_option autoImplicit false

namespace Templating.Template

structure Flags where
  isStatic : Bool
  /-- The element is static or rendered once, and inside a loop. -/
  isInLoop : Bool
  isRoot : Bool
deriving DecidableEq, Repr

def Flags.none : Flags := ⟨false, false, false⟩

/-- The flags of all nodes by number.  Numbers beyond the table have none. -/
structure Annotations where
  table : List Flags
deriving DecidableEq, Repr

namespace Annotations

def empty : Annotations := ⟨[]⟩

def get (annotations : Annotations) (id : Nat) : Flags := annotations.table.getD id .none

def rootCount (annotations : Annotations) : Nat :=
  (annotations.table.filter Flags.isRoot).length

end Annotations

/-- Nothing in the head depends on data.  `inTemplateLoop` says that a template
element above repeats the element. -/
def Head.isStatic (settings : Settings) (inTemplateLoop : Bool) (head : Head) : Bool :=
  head.isVerbatim ||
    (!head.hasBindings && head.condition.isNone && head.loop.isNone && !head.isOnce &&
      head.key.isNone && head.ref.isNone && head.component.isNone && head.outletName.isNone &&
      head.slotTarget.isNone && head.tag != "slot" && head.tag != "template" &&
      head.tag != "component" && settings.platform.isReserved head.tag && !inTemplateLoop &&
      head.extensions.all fun entry => settings.staticKeys.contains entry.1)

/-- The children of a template element are in its loop or in the one above. -/
def Head.repeatsChildren (inTemplateLoop : Bool) (head : Head) : Bool :=
  head.tag == "template" && (head.loop.isSome || inTemplateLoop)

mutual

def Element.isStatic (settings : Settings) (inTemplateLoop : Bool) : Element → Bool
  | ⟨head, children, branches⟩ =>
    let below := allStatic settings (head.repeatsChildren inTemplateLoop) children
    head.isStatic settings inTemplateLoop && (head.isVerbatim || below) &&
      branchesStatic settings inTemplateLoop branches

def Node.isStatic (settings : Settings) (inTemplateLoop : Bool) : Node → Bool
  | .element element => element.isStatic settings inTemplateLoop
  | .text run => run.segments.isEmpty
  | .comment _ => true

def allStatic (settings : Settings) (inTemplateLoop : Bool) : List Node → Bool
  | [] => true
  | node :: rest =>
    node.isStatic settings inTemplateLoop && allStatic settings inTemplateLoop rest

def branchesStatic (settings : Settings) (inTemplateLoop : Bool) : List Branch → Bool
  | [] => true
  | ⟨_, block⟩ :: rest =>
    block.isStatic settings inTemplateLoop && branchesStatic settings inTemplateLoop rest

end

structure Surroundings where
  inTemplateLoop : Bool
  inLoop : Bool
  /-- A static root is above; nothing below it is looked at again. -/
  underRoot : Bool

def Head.flags (around : Surroundings) (isStatic hasChildren : Bool) (head : Head) : Flags :=
  { isStatic
    isInLoop := !around.underRoot && (isStatic || head.isOnce) && around.inLoop
    isRoot := !around.underRoot && isStatic && hasChildren }

def Head.surroundChildren (around : Surroundings) (flags : Flags) (head : Head) : Surroundings :=
  { inTemplateLoop := head.repeatsChildren around.inTemplateLoop
    inLoop := around.inLoop || head.loop.isSome
    underRoot := around.underRoot || flags.isRoot }

mutual

def Element.annotate (settings : Settings) (around : Surroundings) :
    Element → List (Nat × Flags)
  | ⟨head, children, branches⟩ =>
    let isStatic := Element.isStatic settings around.inTemplateLoop ⟨head, children, branches⟩
    let flags := head.flags around isStatic (!children.isEmpty)
    (head.id, flags) :: annotateNodes settings (head.surroundChildren around flags) children ++
      annotateBranches settings { around with underRoot := around.underRoot || flags.isRoot }
        branches

def Node.annotate (settings : Settings) (around : Surroundings) : Node → List (Nat × Flags)
  | .element element => element.annotate settings around
  | .text run => [(run.id, ⟨run.segments.isEmpty, false, false⟩)]
  | .comment comment => [(comment.id, ⟨true, false, false⟩)]

def annotateNodes (settings : Settings) (around : Surroundings) :
    List Node → List (Nat × Flags)
  | [] => []
  | node :: rest => node.annotate settings around ++ annotateNodes settings around rest

def annotateBranches (settings : Settings) (around : Surroundings) :
    List Branch → List (Nat × Flags)
  | [] => []
  | ⟨_, block⟩ :: rest =>
    block.annotate settings around ++ annotateBranches settings around rest

end

def Document.analyze (settings : Settings) (document : Document) : Annotations :=
  let entries :=
    match document.root with
    | some root => root.annotate settings ⟨false, false, false⟩
    | none => []
  ⟨(List.range document.nodeCount).map fun id => (entries.lookup id).getD .none⟩

end Templating.Template
