import Templating.Proofs.Template.AllHeads
import Templating.Proofs.Translation.Hoisting
/-!
# Literal trees

Elements with literal attributes, texts and comments.  They are still, and all
that they contribute to source is read as it is meant; an element is the call of
`_c` with its tag, its attributes where it has any, and the list of its children.
-/
set_option autoImplicit false

namespace Templating.Template

/-- The head has literal attributes, and nothing else is asked of the element. -/
def Head.isLiteral (head : Head) : Bool :=
  !head.hasBindings && head.condition.isNone && head.loop.isNone && !head.isOnce &&
    head.key.isNone && head.ref.isNone && head.component.isNone && head.outletName.isNone &&
    head.slotTarget.isNone && head.tag != "slot" && head.tag != "template"

mutual

def Element.isLiteral : Element → Bool
  | ⟨head, children, branches⟩ => head.isLiteral && branches.isEmpty && allLiteral children

def Node.isLiteral : Node → Bool
  | .element element => element.isLiteral
  | .text run => run.segments.isEmpty
  | .comment _ => true

def allLiteral : List Node → Bool
  | [] => true
  | node :: rest => node.isLiteral && allLiteral rest

end

theorem Element.isLiteral_iff {head : Head} {children : List Node} {branches : List Branch} :
    (Element.mk head children branches).isLiteral = true ↔
      head.isLiteral = true ∧ branches = [] ∧ allLiteral children = true := by
  rw [Element.isLiteral, Bool.and_eq_true, Bool.and_eq_true, List.isEmpty_iff, and_assoc]

theorem allLiteral_cons {node : Node} {rest : List Node} :
    allLiteral (node :: rest) = true ↔ node.isLiteral = true ∧ allLiteral rest = true := by
  rw [allLiteral, Bool.and_eq_true]

end Templating.Template

namespace Templating.Rendering

open Templating.Template Templating.Expression

/-! ## Literal trees are still -/

theorem isStill_of_isLiteral {head : Head} (literal : head.isLiteral = true)
    (bare : head.extensions = []) : IsStill head := by
  simp only [Head.isLiteral, Head.hasBindings, Bool.and_eq_true, Bool.not_eq_true',
    Bool.or_eq_false_iff, List.any_eq_false, Bool.not_eq_true, Bool.not_eq_false',
    List.isEmpty_iff, Option.isNone_iff_eq_none, Option.isSome_eq_false_iff] at literal
  obtain ⟨⟨⟨⟨⟨⟨⟨⟨⟨⟨bindings, condition⟩, loop⟩, once⟩, key⟩, ref⟩, component⟩, outletName⟩, slotTarget⟩,
    -⟩, -⟩ := literal
  obtain ⟨⟨⟨⟨⟨attributes, props⟩, listeners⟩, nativeListeners⟩, directives⟩, spread⟩ := bindings
  exact
    { attributes, props, listeners, nativeListeners, directives, key, ref, condition, loop
      isOnce := once, component, outletName, slotTarget, spread
      extensions := fun _ held => by simp [bare] at held }

theorem tag_of_isLiteral {head : Head} (literal : head.isLiteral = true) :
    head.tag ≠ "slot" ∧ head.tag ≠ "template" := by
  simp only [Head.isLiteral, Bool.and_eq_true, bne_iff_ne] at literal
  exact ⟨literal.1.2, literal.2⟩

theorem isRepeatable_of_isLiteral {head : Head} (literal : head.isLiteral = true) :
    IsRepeatable head := by
  simp only [Head.isLiteral, Bool.and_eq_true, Bool.not_eq_true'] at literal
  exact literal.1.1.1.1.1.1.1.2

mutual

theorem everyHead_of_isLiteral (element : Element) (literal : element.isLiteral = true) :
    element.EveryHead IsRepeatable := by
  match element with
  | ⟨head, children, branches⟩ =>
    obtain ⟨own, rfl, below⟩ := Element.isLiteral_iff.mp literal
    exact .inr ⟨isRepeatable_of_isLiteral own, everyHeadOfNodes_of_allLiteral children below,
      trivial⟩

theorem everyHeadOfNodes_of_allLiteral (nodes : List Node) (literal : allLiteral nodes = true) :
    EveryHeadOfNodes IsRepeatable nodes := by
  match nodes with
  | [] => trivial
  | .element element :: rest =>
    obtain ⟨first, others⟩ := allLiteral_cons.mp literal
    exact ⟨everyHead_of_isLiteral element first, everyHeadOfNodes_of_allLiteral rest others⟩
  | .text _ :: rest =>
    exact ⟨trivial, everyHeadOfNodes_of_allLiteral rest (allLiteral_cons.mp literal).2⟩
  | .comment _ :: rest =>
    exact ⟨trivial, everyHeadOfNodes_of_allLiteral rest (allLiteral_cons.mp literal).2⟩

end

mutual

theorem stillElement_of_isLiteral (element : Element) (literal : element.isLiteral = true)
    (formed : FormedElement element) (bare : element.All fun head => head.extensions = []) :
    StillElement element := by
  cases verbatim : element.head.isVerbatim with
  | true => exact stillElement_of_raw element ((formedElement_raw element verbatim).mp formed)
  | false =>
    match element with
    | ⟨head, children, branches⟩ =>
      obtain ⟨own, rfl, below⟩ := Element.isLiteral_iff.mp literal
      obtain ⟨named, -, formedBelow, -⟩ := (formedElement_plain _ verbatim).mp formed
      exact ⟨isStill_of_isLiteral own bare.own, named,
        stillNodes_of_allLiteral children below formedBelow bare.below⟩

theorem stillNodes_of_allLiteral (nodes : List Node) (literal : allLiteral nodes = true)
    (formed : FormedNodes nodes) (bare : ∀ head ∈ headsOfNodes nodes, head.extensions = []) :
    StillNodes nodes := by
  match nodes with
  | [] => trivial
  | node :: rest =>
    obtain ⟨first, others⟩ := allLiteral_cons.mp literal
    have here : ∀ head ∈ node.heads, head.extensions = [] := fun head held =>
      bare head (List.mem_append_left _ held)
    have behind := stillNodes_of_allLiteral rest others formed.2 fun head held =>
      bare head (List.mem_append_right _ held)
    match node with
    | .element element => exact ⟨stillElement_of_isLiteral element first formed.1 here, behind⟩
    | .text run => exact ⟨List.isEmpty_iff.mp first, behind⟩
    | .comment _ => exact ⟨trivial, behind⟩

end

mutual

theorem soundElement_of_still (element : Element) (literal : element.isLiteral = true)
    (still : StillElement element) : SoundElement element := by
  match element with
  | ⟨head, children, branches⟩ =>
    obtain ⟨-, rfl, below⟩ := Element.isLiteral_iff.mp literal
    obtain ⟨own, named, stillBelow⟩ := still
    exact ⟨own.soundHead named, soundNodes_of_still children below stillBelow, trivial⟩

theorem soundNodes_of_still (nodes : List Node) (literal : allLiteral nodes = true)
    (still : StillNodes nodes) : SoundNodes nodes := by
  match nodes with
  | [] => trivial
  | node :: rest =>
    obtain ⟨first, others⟩ := allLiteral_cons.mp literal
    have behind := soundNodes_of_still rest others still.2
    match node with
    | .element element => exact ⟨soundElement_of_still element first still.1, behind⟩
    | .text run =>
      refine ⟨fun segment held => ?_, behind⟩
      rw [List.isEmpty_iff.mp first] at held
      cases held
    | .comment _ => exact ⟨trivial, behind⟩

end

/-! ## Translation of literal elements -/

def literalFields (head : Head) : List Field :=
  (if head.isVerbatim then [namedField "pre" (booleanExpr true)] else []) ++
    unlessEmpty "attrs" head.attributes attributesMeaning

def literalArguments (head : Head) : List Expr :=
  textExpr head.tag ::
    if (literalFields head).isEmpty then [] else [.record (literalFields head)]

/-- A literal element around what its children mean: the call of `_c`, or an
outlet. -/
def literalCore (head : Head) (parts : List Expr) : Expr :=
  let inner := if parts.isEmpty then none else some (.list parts)
  if head.tag == "slot" then outletMeaning head inner
  else helperCall "_c" (literalArguments head ++ inner.toList)

/-- The element is no template of which only the children are there. -/
def StandsForItself (head : Head) : Prop :=
  (head.tag == "template" && head.slotTarget.isNone && !head.isVerbatim) = false

section Core

variable {settings : Settings} {head : Head} (still : IsStill head)
  (unextended : extensionsMeaning settings head = [])

include still unextended

theorem dataMeaning_of_still (inLoop : Bool) : dataMeaning settings inLoop head = literalFields head := by
  simp [dataMeaning, literalFields, keptDirectives, propsMeaning, optionalMeaning, unlessEmpty, unextended,
    still.directives, still.key, still.ref, still.component, still.props, still.listeners,
    still.nativeListeners, still.slotTarget]

theorem coreMeaning_of_still (itself : StandsForItself head) {children : List Node}
    (single : isLoneLoop children = false) (translators : List Translator)
    (loops : List (Option String)) :
    coreMeaning settings head children translators loops = do
      let parts ← translators.mapM fun translator => translator loops
      return literalCore head parts := by
  have data (inLoop : Bool) : dataObject settings inLoop head = .record (literalFields head) := by
    rw [dataObject, still.spread, dataMeaning_of_still still unextended]
  have needs (inLoop : Bool) : needsData settings inLoop head = !(literalFields head).isEmpty := by
    rw [needsData, dataMeaning_of_still still unextended, still.spread, Option.isSome_none, Bool.or_false]
  rw [StandsForItself] at itself
  rw [coreMeaning, childrenMeaning, bind_assoc]
  congr 1
  funext parts
  simp only [single, itself, still.component, data, needs, literalCore, literalArguments, Bool.false_eq_true,
    if_false]
  rcases parts with _ | ⟨part, _ | ⟨second, others⟩⟩ <;> cases (literalFields head).isEmpty <;>
    cases head.tag == "slot" <;> rfl

end Core

theorem isLoneLoop_of_allLiteral {children : List Node} (literal : allLiteral children = true) :
    isLoneLoop children = false := by
  unfold isLoneLoop
  split
  · next only =>
    have first := (allLiteral_cons.mp literal).1
    obtain ⟨head, below, branches⟩ := only
    obtain ⟨own, -, -⟩ := Element.isLiteral_iff.mp first
    simp only [Head.isLiteral, Bool.and_eq_true, Option.isNone_iff_eq_none] at own
    simp [own]
  · rfl

theorem coreMeaning_of_isLiteral {settings : Settings} (none : settings.extensions = []) {head : Head}
    (literal : head.isLiteral = true) (still : IsStill head) {children : List Node}
    (below : allLiteral children = true) (translators : List Translator)
    (loops : List (Option String)) :
    coreMeaning settings head children translators loops = do
      let parts ← translators.mapM fun translator => translator loops
      return helperCall "_c"
        (literalArguments head ++ if parts.isEmpty then [] else [.list parts]) := by
  obtain ⟨notSlot, notTemplate⟩ := tag_of_isLiteral literal
  have unextended : extensionsMeaning settings head = [] := by simp [extensionsMeaning, none]
  rw [coreMeaning_of_still still unextended (by simp [StandsForItself, notTemplate])
    (isLoneLoop_of_allLiteral below)]
  congr 1
  funext parts
  rw [literalCore, beq_eq_false_iff_ne.mpr notSlot]
  cases parts <;> rfl

end Templating.Rendering
