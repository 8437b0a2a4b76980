import Templating.Proofs.Template.Marking
import Templating.Proofs.Translation.Literal
/-!
# Verbatim parts of a template

Nothing is source in a verbatim element and below it.  The code of such a tree
is made of texts by helpers, and it does not depend on what is around; a static
root is called in its place, and its code is the fragment.
-/
set_option autoImplicit false

namespace Templating.Rendering

open Templating.Text Templating.Data Templating.Template Templating.Expression

/-! ## Fixed code -/

/-- Code of `makers`: the only literals are texts, `true` and `null`, the fields
of objects have fixed names, and functions have no parameters. -/
inductive IsFixed : Expr → Prop where
  | null : IsFixed (.literal .null)
  | yes : IsFixed (booleanExpr true)
  | text (content : String) : IsFixed (textExpr content)
  | call {name : String} (made : name ∈ makers) {arguments : List Expr}
    (each : ∀ argument ∈ arguments, IsFixed argument) : IsFixed (helperCall name arguments)
  | list {items : List Expr} (each : ∀ item ∈ items, IsFixed item) : IsFixed (.list items)
  | record {entries : List Field} (named : ∀ entry ∈ entries, ∃ name, entry.1 = .fixed name)
    (each : ∀ entry ∈ entries, IsFixed entry.2) : IsFixed (.record entries)
  | function {body : Expr} (inner : IsFixed body) : IsFixed (.function [] body)

theorem attributesMeaning_isFixed {items : List Attribute}
    (plain : ∀ item ∈ items, item.isDynamic = false) : IsFixed (attributesMeaning items) := by
  have literal : ∀ item ∈ items, attributeMeaning item = namedField item.name (textExpr item.value) := by
    intro item held
    have plain := plain item held
    simp only [Attribute.isDynamic, Bool.or_eq_false_iff] at plain
    simp [attributeMeaning, keyMeaning, namedField, plain]
  refine .record ?_ ?_ <;> intro entry held <;> obtain ⟨item, given, rfl⟩ := List.mem_map.mp held <;>
    rw [literal item given]
  · exact ⟨item.name, rfl⟩
  · exact .text item.value

theorem literalFields_isFixed {head : Head} (plain : ∀ item ∈ head.attributes, item.isDynamic = false) :
    IsFixed (.record (literalFields head)) := by
  have fields : ∀ entry ∈ literalFields head, (∃ name, entry.1 = .fixed name) ∧ IsFixed entry.2 := by
    intro entry held
    rcases List.mem_append.mp held with held | held
    · split at held
      · obtain rfl := List.mem_singleton.mp held
        exact ⟨⟨"pre", rfl⟩, .yes⟩
      · cases held
    · unfold unlessEmpty at held
      split at held
      · cases held
      · obtain rfl := List.mem_singleton.mp held
        exact ⟨⟨"attrs", rfl⟩, attributesMeaning_isFixed plain⟩
  exact .record (fun entry held => (fields entry held).1) fun entry held => (fields entry held).2

def outletArguments (head : Head) (inner : Option Expr) : List Expr :=
  (match inner with
    | some body => [.function [] body]
    | none => if head.attributes.isEmpty then [] else [.literal .null]) ++
    if head.attributes.isEmpty then [] else [attributesMeaning (outletProps head)]

theorem outletMeaning_of_still {head : Head} (still : IsStill head) (inner : Option Expr) :
    outletMeaning head inner = helperCall "_t" (textExpr "default" :: outletArguments head inner) := by
  have empty : (outletProps head).isEmpty = head.attributes.isEmpty := by simp [outletProps]
  unfold outletMeaning outletArguments
  cases inner <;> cases given : head.attributes.isEmpty <;>
    simp [still.outletName, still.spread, empty, given]

theorem outletProps_plain {head : Head} (plain : ∀ item ∈ head.attributes, item.isDynamic = false) :
    ∀ item ∈ outletProps head, item.isDynamic = false := by
  intro prop held
  obtain ⟨item, given, rfl⟩ := List.mem_map.mp held
  exact plain item given

theorem outletArguments_isFixed {head : Head} (plain : ∀ item ∈ head.attributes, item.isDynamic = false)
    {inner : Option Expr} (fixed : ∀ body ∈ inner, IsFixed body) :
    ∀ argument ∈ outletArguments head inner, IsFixed argument := by
  intro argument held
  rcases List.mem_append.mp held with held | held
  · cases inner with
    | some body =>
      obtain rfl := List.mem_singleton.mp held
      exact .function (fixed body rfl)
    | none =>
      dsimp only at held
      split at held
      · cases held
      · obtain rfl := List.mem_singleton.mp held
        exact .null
  · split at held
    · cases held
    · obtain rfl := List.mem_singleton.mp held
      exact attributesMeaning_isFixed (outletProps_plain plain)

theorem literalCore_isFixed {head : Head} (still : IsStill head) {parts : List Expr}
    (fixed : ∀ part ∈ parts, IsFixed part) : IsFixed (literalCore head parts) := by
  have inner : ∀ body ∈ (if parts.isEmpty then none else some (.list parts) : Option Expr),
      IsFixed body := by
    intro body held
    split at held
    · cases held
    · cases held
      exact .list fixed
  unfold literalCore
  dsimp only
  generalize (if parts.isEmpty then none else some (.list parts) : Option Expr) = body at inner ⊢
  split
  · rw [outletMeaning_of_still still]
    refine .call (by decide) (List.forall_mem_cons.mpr ⟨.text "default", ?_⟩)
    exact outletArguments_isFixed still.attributes inner
  · refine .call (by decide) (List.forall_mem_append.mpr ⟨?_, fun body held => ?_⟩)
    · refine List.forall_mem_cons.mpr ⟨.text head.tag, fun argument held => ?_⟩
      split at held
      · cases held
      · obtain rfl := List.mem_singleton.mp held
        exact literalFields_isFixed still.attributes
    · exact inner body (Option.mem_toList.mp held)

/-! ## The code of raw trees -/

mutual

/-- The code of a tree in which nothing is source. -/
def rawMeaning : Element → Expr
  | ⟨head, children, _⟩ => literalCore head (rawMeanings children)

def rawNodeMeaning : Node → Expr
  | .element element => rawMeaning element
  | .text run => helperCall "_v" [textExpr run.content]
  | .comment comment => helperCall "_e" [textExpr comment.content]

def rawMeanings : List Node → List Expr
  | [] => []
  | node :: rest => rawNodeMeaning node :: rawMeanings rest

end

mutual

theorem rawMeaning_isFixed (element : Element) (raw : RawElement element) :
    IsFixed (rawMeaning element) := by
  match element, raw with
  | ⟨_, children, _⟩, ⟨rawHead, _, below, _⟩ =>
    exact literalCore_isFixed (IsRaw.isStill rawHead) (rawMeanings_areFixed children below)

theorem rawMeanings_areFixed (nodes : List Node) (raw : RawNodes nodes) :
    ∀ part ∈ rawMeanings nodes, IsFixed part := by
  have leaf {name content : String} (made : name ∈ makers) : IsFixed (helperCall name [textExpr content]) :=
    .call made (List.forall_mem_singleton.mpr (.text content))
  match nodes, raw with
  | [], _ => exact fun _ held => by cases held
  | node :: rest, ⟨first, others⟩ =>
    refine List.forall_mem_cons.mpr ⟨?_, rawMeanings_areFixed rest others⟩
    match node with
    | .element element => exact rawMeaning_isFixed element first
    | .text _ => exact leaf (by decide)
    | .comment _ => exact leaf (by decide)

end

/-! ## Templates in verbatim trees -/

mutual

/-- In a verbatim tree only line breaks are not verbatim, so no template in it
stands for its children. -/
theorem standsForItself_of_isInert (element : Element) (raw : RawElement element)
    (settled : element.Throughout Element.IsSettled) (inert : element.IsInert) :
    element.All StandsForItself := by
  match element, raw with
  | ⟨head, children, branches⟩, ⟨_, _, rawBelow, unbranched⟩ =>
    obtain ⟨own, below⟩ := Element.throughout_iff.mp settled
    subst unbranched
    rcases inert with verbatim | ⟨tag, childless⟩
    · refine .ofParts ?_ (standsForItself_of_areInert children rawBelow below.children (own.inert verbatim))
        fun _ held => by cases held
      simpa [StandsForItself] using fun _ _ => verbatim
    · dsimp only at tag childless
      subst childless
      exact .ofParts (by simp [StandsForItself, tag]) (fun _ held => by cases held)
        fun _ held => by cases held

theorem standsForItself_of_areInert (nodes : List Node) (raw : RawNodes nodes)
    (settled : ∀ child, .element child ∈ nodes → child.Throughout Element.IsSettled)
    (inert : ∀ child, .element child ∈ nodes → child.IsInert) :
    ∀ head ∈ headsOfNodes nodes, StandsForItself head := by
  match nodes, raw with
  | [], _ => exact fun _ held => by cases held
  | node :: rest, ⟨first, others⟩ =>
    have behind := standsForItself_of_areInert rest others
      (fun child held => settled child (List.mem_cons_of_mem _ held))
      (fun child held => inert child (List.mem_cons_of_mem _ held))
    refine List.forall_mem_append.mpr ⟨?_, behind⟩
    match node with
    | .element element =>
      exact standsForItself_of_isInert element first (settled element List.mem_cons_self)
        (inert element List.mem_cons_self)
    | .text _ => exact fun _ held => by cases held
    | .comment _ => exact fun _ held => by cases held

end

/-! ## Translation of raw trees -/

theorem extensionsMeaning_of_raw {head : Head} (raw : IsRaw head) (settings : Settings) :
    extensionsMeaning settings head = [] := by
  simp [extensionsMeaning, raw.extensions, Dictionary.find?]

theorem isLoneLoop_of_raw {nodes : List Node} (raw : RawNodes nodes) : isLoneLoop nodes = false := by
  unfold isLoneLoop
  split
  · next only =>
    have own := ((rawElement_iff only).mp raw.1).1
    simp [own.loop]
  · rfl

section Translate

variable {context : Context}

mutual

theorem raw_translates (element : Element) (raw : RawElement element)
    (itself : element.All StandsForItself) (unhoisted : Unhoisted context.annotations element) :
    TranslatesTo (elementMeaning context element) (rawMeaning element) := by
  match element, raw, unhoisted with
  | ⟨head, children, branches⟩, ⟨rawHead, _, rawBelow, _⟩, ⟨unmarked, below⟩ =>
    intro loops
    have still := IsRaw.isStill rawHead
    have parts := rawNodes_translate children rawBelow itself.below below
    rw [elementMeaning, still.layers unmarked, List.foldr_nil,
      coreMeaning_of_still still (extensionsMeaning_of_raw rawHead _) itself.own (isLoneLoop_of_raw rawBelow),
      mapM_eq_pure loops (parts.imp fun _ _ translates => translates loops), pure_bind, rawMeaning]

theorem rawNodes_translate (nodes : List Node) (raw : RawNodes nodes)
    (itself : ∀ head ∈ headsOfNodes nodes, StandsForItself head)
    (unhoisted : NodesUnhoisted context.annotations nodes) :
    List.Forall₂ TranslatesTo (nodeMeanings context nodes) (rawMeanings nodes) := by
  match nodes, raw, unhoisted with
  | [], _, _ => exact .nil
  | node :: rest, ⟨first, others⟩, ⟨here, below⟩ =>
    obtain ⟨own, behind⟩ := List.forall_mem_append.mp itself
    refine .cons ?_ (rawNodes_translate rest others behind below)
    match node with
    | .element element => exact raw_translates element first own here
    | .text run =>
      intro loops
      rw [RawNode] at first
      simp [nodeMeaning, rawNodeMeaning, runMeaning, first]
    | .comment comment => exact fun _ => rfl

end

end Translate

/-! ## Source of raw trees -/

def undirected (settings : Settings) : Settings := { settings with directives := [] }

theorem undirected_standard {base : Settings} (known : IsBase base) {overlay : Overlay}
    (bare : overlay.extensions = []) : StandardSettings (undirected (base.overlaid overlay)) := by
  have extended : (undirected (base.overlaid overlay)).extensions = base.extensions := by
    simp [undirected, Settings.overlaid, bare]
  refine ⟨?_, fun directive entry held => ?_⟩
  · rw [extended]
    rcases known with rfl | rfl
    · exact .inr rfl
    · exact .inl rfl
  · simp [directiveOutcome, Settings.directive?, undirected, Dictionary.find?] at held

theorem writeCore_of_raw {head : Head} (raw : IsRaw head) (context : Context) (annotations : Annotations)
    (children : List Node) (writers : List Writer) :
    writeCore context head children writers =
      writeCore ⟨undirected context.settings, annotations⟩ head children writers := by
  have data (inLoop : Bool) :
      dataCode context.settings inLoop head = dataCode (undirected context.settings) inLoop head := by
    simp [dataCode, dataFields, raw.directives, undirected]
  funext loops
  simp [writeCore, writeData, directiveDiagnostics, raw.directives, data]

section Write

variable {context : Context}

mutual

theorem raw_writes (element : Element) (raw : RawElement element)
    (unhoisted : Unhoisted context.annotations element) :
    writeElement context element = writeElement ⟨undirected context.settings, .empty⟩ element := by
  match element, raw, unhoisted with
  | ⟨head, children, branches⟩, ⟨rawHead, _, rawBelow, _⟩, ⟨unmarked, below⟩ =>
    have still := IsRaw.isStill rawHead
    rw [writeElement, writeElement, still.layers unmarked, still.layers rfl, List.foldr_nil,
      List.foldr_nil, rawNodes_write children rawBelow below, ← writeCore_of_raw rawHead]

theorem rawNodes_write (nodes : List Node) (raw : RawNodes nodes)
    (unhoisted : NodesUnhoisted context.annotations nodes) :
    nodeWriters context nodes = nodeWriters ⟨undirected context.settings, .empty⟩ nodes := by
  match nodes, raw, unhoisted with
  | [], _, _ => rfl
  | node :: rest, ⟨first, others⟩, ⟨here, below⟩ =>
    rw [nodeWriters, nodeWriters, rawNodes_write rest others below]
    match node with
    | .element element => rw [writeNode, writeNode, raw_writes element first here]
    | .text _ => rfl
    | .comment _ => rfl

end

end Write

/-- Wherever it stands, a raw tree is written as code that is read as its
meaning. -/
theorem raw_reads {settings : Settings} (standard : StandardSettings (undirected settings))
    (element : Element) (raw : RawElement element) (itself : element.All StandsForItself) :
    ∃ code, WritesOnly (writeElement ⟨undirected settings, .empty⟩ element) code ∧
      BlockReads code (rawMeaning element) := by
  have still := stillElement_of_raw element raw
  have unhoisted := unhoisted_empty element
  obtain ⟨code, writes⟩ := @still_writes ⟨undirected settings, .empty⟩ element still unhoisted
  have translates := @raw_translates ⟨undirected settings, .empty⟩ element raw itself unhoisted
  have agrees := @still_agrees ⟨undirected settings, .empty⟩ standard element still unhoisted []
    (fun _ held => by cases held) .empty .empty ⟨.nil, rfl⟩
  rw [writes, translates] at agrees
  exact ⟨code, writes, agrees.1⟩

/-! ## Raw trees that are hoisted -/

theorem raw_hoisted {context : Context} {element : Element} (raw : RawElement element)
    (isRoot : (context.annotations.get element.head.id).isRoot = true)
    (below : NodesUnhoisted context.annotations element.children) {code : Code}
    (writes : WritesOnly (writeElement ⟨undirected context.settings, .empty⟩ element) code)
    (loops : List (Option String)) (draft : Draft) :
    (writeElement context element loops).run draft =
      ([.fragment draft.fragments.length (context.annotations.get element.head.id).isInLoop],
        { draft with fragments := draft.fragments ++ [code.wrapped] }) := by
  obtain ⟨head, children, branches⟩ := element
  obtain ⟨rawHead, -, rawBelow, -⟩ := raw
  have still := IsRaw.isStill rawHead
  have core : writeCore context head children (nodeWriters context children) loops = pure code := by
    have alone := writes loops
    rw [writeElement, still.layers rfl, List.foldr_nil] at alone
    rw [rawNodes_write children rawBelow below, writeCore_of_raw rawHead]
    exact alone
  rw [writeElement, still.layers_root isRoot, List.foldr_cons, List.foldr_nil, Layer.write]
  simp only [core, pure_bind]
  rfl

theorem verbatim_unhoisted {settings : Settings} {annotations : Annotations} {element : Element}
    {around : Surroundings} (settled : element.IsSettled) (verbatim : element.head.isVerbatim = true)
    (holds : annotations.Holds (element.annotate settings around)) :
    NodesUnhoisted annotations element.children := by
  cases given : element.children with
  | nil => trivial
  | cons first others =>
    rw [← given]
    have isStatic : element.isStatic settings around.inTemplateLoop = true := by
      obtain ⟨-, -, -, branches⟩ := (rawElement_iff element).mp (settled.raw verbatim)
      simp [Element.isStatic_eq, Head.isStatic, verbatim, branches, branchesStatic]
    rw [Element.annotate_eq] at holds
    refine nodesUnhoisted_of_annotate _ ?_ element.children
      fun entry held => holds entry (List.mem_append_left _ (List.mem_cons_of_mem _ held))
    simp only [Head.surroundChildren, Element.flags, Head.flags, isStatic, given]
    cases around.underRoot <;> rfl

end Templating.Rendering
