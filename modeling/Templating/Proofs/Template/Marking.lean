import Templating.Proofs.Template.Lineage
import Templating.Proofs.Translation.Programs
/-!
# What is marked

The marks of the analysis are looked up by number, but they say something about
places: an element is static with all that is below it, and a root is a static
element with children and no static element above.
-/
set_option autoImplicit false

namespace Templating.Template

open Templating.Text Templating.Data Templating.Markup Templating.Rendering

def Node.number : Node → Nat
  | .element ⟨head, _, _⟩ => head.id
  | .text run => run.id
  | .comment ⟨id, _, _⟩ => id

/-- Nothing in the head is taken from data. -/
structure Head.IsFixed (head : Head) : Prop where
  hasBindings : head.hasBindings = false
  condition : head.condition = none
  loop : head.loop = none
  isOnce : head.isOnce = false
  key : head.key = none
  ref : head.ref = none
  component : head.component = none
  outletName : head.outletName = none
  slotTarget : head.slotTarget = none

theorem IsRaw.isFixed {head : Head} (raw : IsRaw head) : head.IsFixed where
  hasBindings := by
    have attributes : head.attributes.any Attribute.isDynamic = false := by
      simpa using raw.attributes
    simp [Head.hasBindings, attributes, raw.props, raw.listeners, raw.nativeListeners,
      raw.directives, raw.spread]
  condition := raw.condition
  loop := raw.loop
  isOnce := raw.isOnce
  key := raw.key
  ref := raw.ref
  component := raw.component
  outletName := raw.outletName
  slotTarget := raw.slotTarget

/-! ## Elements of a tree that has been read -/

/-- What is verbatim is raw throughout, and only a condition brings branches. -/
structure Element.IsSettled (element : Element) : Prop where
  branched : element.branches ≠ [] →
    element.head.isVerbatim = false ∧ element.head.condition ≠ none
  raw : element.head.isVerbatim = true → RawElement element
  inert : element.head.isVerbatim = true →
    ∀ child, .element child ∈ element.children → child.IsInert

def Element.IsReadable (element : Element) : Prop := FormedElement element ∨ RawElement element

theorem Element.IsReadable.raw {element : Element} (readable : element.IsReadable)
    (verbatim : element.head.isVerbatim = true) : RawElement element := by
  rcases readable with formed | raw
  · exact (formedElement_raw element verbatim).mp formed
  · exact raw

theorem Element.IsReadable.child {parent child : Element} (readable : parent.IsReadable)
    (held : .element child ∈ parent.children) : child.IsReadable := by
  have below (raw : RawElement parent) : child.IsReadable := by
    obtain ⟨-, -, nodes, -⟩ := (rawElement_iff parent).mp raw
    exact .inr ((rawNodes_iff _).mp nodes _ held)
  rcases readable with formed | raw
  · cases verbatim : parent.head.isVerbatim with
    | true => exact below ((formedElement_raw parent verbatim).mp formed)
    | false =>
      obtain ⟨-, -, nodes, -⟩ := (formedElement_plain parent verbatim).mp formed
      exact .inl ((formedNodes_iff _).mp nodes _ held)
  · exact below raw

theorem formedBranches_block {branches : List Branch} (formed : FormedBranches branches)
    {branch : Branch} (held : branch ∈ branches) : FormedElement branch.block := by
  induction branches with
  | nil => cases held
  | cons first others ih =>
    obtain ⟨condition, block⟩ := first
    obtain ⟨-, -, here, rest⟩ := formed
    rcases List.mem_cons.mp held with rfl | held
    · exact here
    · exact ih rest held

theorem Element.IsReadable.branch {parent : Element} (readable : parent.IsReadable)
    {branch : Branch} (held : branch ∈ parent.branches) : branch.block.IsReadable := by
  have none (raw : RawElement parent) : branch.block.IsReadable := by
    obtain ⟨-, -, -, branches⟩ := (rawElement_iff parent).mp raw
    rw [branches] at held
    cases held
  rcases readable with formed | raw
  · cases verbatim : parent.head.isVerbatim with
    | true => exact none ((formedElement_raw parent verbatim).mp formed)
    | false =>
      obtain ⟨-, -, -, branches⟩ := (formedElement_plain parent verbatim).mp formed
      exact .inl (formedBranches_block branches held)
  · exact none raw

theorem parse_settled {settings : Settings} (faithful : settings.IsFaithful) (source : String) :
    ∀ root ∈ (Document.parse settings source).1.root, root.Throughout Element.IsSettled := by
  intro root held above element lineage
  have placed := parse_placed settings source root held above element lineage
  have start : root.IsReadable := .inl (parse_formed faithful source root held)
  have readable : element.IsReadable :=
    lineage.keep (fun _ _ readable inside => readable.child inside)
      (fun _ readable _ inside => readable.branch inside) start
  refine ⟨?_, readable.raw, placed.inert faithful⟩
  intro branched
  have conditional := placed.condition branched
  cases verbatim : element.head.isVerbatim with
  | false => exact ⟨rfl, Option.isSome_iff_ne_none.mp conditional⟩
  | true =>
    have raw := ((rawElement_iff element).mp (readable.raw verbatim)).1
    rw [raw.condition] at conditional
    cases conditional

def Element.IsCovered (holds : Head → Prop) (element : Element) : Prop :=
  RawElement element ∨
    element.head.isVerbatim = false ∧ FormedElement element ∧ element.EveryHead holds

section Covered

variable {holds : Head → Prop} {parent : Element}

theorem isCovered_of_formed (formed : FormedElement parent) (every : parent.EveryHead holds) :
    parent.IsCovered holds := by
  cases verbatim : parent.head.isVerbatim with
  | true => exact .inl ((formedElement_raw parent verbatim).mp formed)
  | false => exact .inr ⟨verbatim, formed, every⟩

theorem Element.IsCovered.child (covered : parent.IsCovered holds) {child : Element}
    (held : .element child ∈ parent.children) : child.IsCovered holds := by
  rcases covered with raw | ⟨plain, formed, every⟩
  · obtain ⟨-, -, nodes, -⟩ := (rawElement_iff parent).mp raw
    exact .inl ((rawNodes_iff _).mp nodes _ held)
  · obtain ⟨-, -, nodes, -⟩ := (formedElement_plain parent plain).mp formed
    exact isCovered_of_formed ((formedNodes_iff _).mp nodes _ held) (every.child plain held)

theorem Element.IsCovered.branch (covered : parent.IsCovered holds) {branch : Branch}
    (held : branch ∈ parent.branches) : branch.block.IsCovered holds := by
  rcases covered with raw | ⟨plain, formed, every⟩
  · obtain ⟨-, -, -, branches⟩ := (rawElement_iff parent).mp raw
    rw [branches] at held
    cases held
  · obtain ⟨-, -, -, branches⟩ := (formedElement_plain parent plain).mp formed
    exact isCovered_of_formed (formedBranches_block branches held) (every.branch plain held)

/-- In a tree that has been read, what holds of raw heads and of every head
outside verbatim parts holds throughout. -/
theorem throughout_of_everyHead (raw : ∀ head, IsRaw head → holds head) {root : Element}
    (formed : FormedElement root) (every : root.EveryHead holds) :
    root.Throughout fun element => holds element.head := by
  intro above element lineage
  have covered : element.IsCovered holds :=
    lineage.keep (fun _ _ covered held => covered.child held)
      (fun _ covered _ held => covered.branch held) (isCovered_of_formed formed every)
  rcases covered with given | ⟨plain, -, everyHere⟩
  · exact raw _ ((rawElement_iff element).mp given).1
  · exact everyHere.own plain

end Covered

/-! ## Static elements -/

section Static

variable {settings : Settings} {element : Element} {inTemplateLoop : Bool}

theorem Element.isStatic_eq (element : Element) : element.isStatic settings inTemplateLoop =
    (element.head.isStatic settings inTemplateLoop &&
      (element.head.isVerbatim ||
        allStatic settings (element.head.repeatsChildren inTemplateLoop) element.children) &&
      branchesStatic settings inTemplateLoop element.branches) := by
  obtain ⟨head, children, branches⟩ := element
  exact Element.isStatic.eq_1 _ _ _ _ _

theorem allStatic_iff {nodes : List Node} : allStatic settings inTemplateLoop nodes = true ↔
    ∀ node ∈ nodes, node.isStatic settings inTemplateLoop = true := by
  induction nodes with
  | nil => simp [allStatic]
  | cons node rest ih => simp [allStatic, ih]

theorem isFixed_of_isStatic {head : Head} (plain : head.isVerbatim = false)
    (isStatic : head.isStatic settings inTemplateLoop = true) : head.IsFixed := by
  simp only [Head.isStatic, plain, Bool.false_or, Bool.and_eq_true, Bool.not_eq_true',
    Option.isNone_iff_eq_none] at isStatic
  obtain ⟨⟨⟨⟨⟨⟨⟨⟨⟨⟨⟨⟨⟨⟨bindings, condition⟩, loop⟩, once⟩, key⟩, ref⟩, component⟩, outletName⟩,
    slotTarget⟩, -⟩, -⟩, -⟩, -⟩, -⟩, -⟩ := isStatic
  exact ⟨bindings, condition, loop, once, key, ref, component, outletName, slotTarget⟩

theorem Element.IsSettled.isFixed (settled : element.IsSettled)
    (isStatic : element.isStatic settings inTemplateLoop = true) : element.head.IsFixed := by
  rw [Element.isStatic_eq, Bool.and_eq_true, Bool.and_eq_true] at isStatic
  cases verbatim : element.head.isVerbatim with
  | true => exact ((rawElement_iff element).mp (settled.raw verbatim)).1.isFixed
  | false => exact isFixed_of_isStatic verbatim isStatic.1.1

theorem Element.IsSettled.unbranched (settled : element.IsSettled)
    (isStatic : element.isStatic settings inTemplateLoop = true) : element.branches = [] := by
  by_contra branched
  exact (settled.branched branched).2 (settled.isFixed isStatic).condition

theorem isStatic_of_isInert (reserved : settings.platform.isReserved "br" = true)
    (raw : RawElement element) (inert : element.IsInert) :
    element.isStatic settings false = true := by
  obtain ⟨rawHead, -, -, branches⟩ := (rawElement_iff element).mp raw
  rw [Element.isStatic_eq, branches]
  rcases inert with verbatim | ⟨tag, childless⟩
  · simp [Head.isStatic, verbatim, branchesStatic]
  · have fixed := rawHead.isFixed
    simp [Head.isStatic, fixed.hasBindings, fixed.condition, fixed.loop, fixed.isOnce, fixed.key,
      fixed.ref, fixed.component, fixed.outletName, fixed.slotTarget, tag, reserved,
      rawHead.extensions, childless, allStatic, branchesStatic]

theorem Element.IsSettled.children (settled : element.IsSettled)
    (reserved : settings.platform.isReserved "br" = true)
    (isStatic : element.isStatic settings inTemplateLoop = true)
    (unrepeated : element.head.repeatsChildren inTemplateLoop = false) :
    ∀ node ∈ element.children, node.isStatic settings false = true := by
  intro node held
  cases verbatim : element.head.isVerbatim with
  | false =>
    rw [Element.isStatic_eq, verbatim, unrepeated, Bool.false_or, Bool.and_eq_true,
      Bool.and_eq_true] at isStatic
    exact allStatic_iff.mp isStatic.1.2 node held
  | true =>
    -- A verbatim element is not static for its children, but they are raw.
    obtain ⟨-, -, rawNodes, -⟩ := (rawElement_iff element).mp (settled.raw verbatim)
    have raw := (rawNodes_iff _).mp rawNodes node held
    cases node with
    | element child => exact isStatic_of_isInert reserved raw (settled.inert verbatim child held)
    | text run => exact List.isEmpty_iff.mpr raw
    | comment comment => rfl

end Static

/-! ## Flags by place -/

section Flags

variable {settings : Settings} {annotations : Annotations} {around : Surroundings}

def Element.flags (settings : Settings) (around : Surroundings) (element : Element) : Flags :=
  element.head.flags around (element.isStatic settings around.inTemplateLoop)
    (!element.children.isEmpty)

theorem Element.annotate_eq (element : Element) : element.annotate settings around =
    (element.head.id, element.flags settings around) ::
      annotateNodes settings
        (element.head.surroundChildren around (element.flags settings around)) element.children ++
      annotateBranches settings
        { around with underRoot := around.underRoot || (element.flags settings around).isRoot }
        element.branches := by
  obtain ⟨head, children, branches⟩ := element
  exact Element.annotate.eq_1 _ _ _ _ _

theorem Annotations.Holds.node {nodes : List Node}
    (holds : annotations.Holds (annotateNodes settings around nodes)) {node : Node}
    (held : node ∈ nodes) : annotations.Holds (node.annotate settings around) := by
  induction nodes with
  | nil => cases held
  | cons first others ih =>
    rw [annotateNodes] at holds
    rcases List.mem_cons.mp held with rfl | held
    · exact fun entry inside => holds entry (List.mem_append_left _ inside)
    · exact ih (fun entry inside => holds entry (List.mem_append_right _ inside)) held

theorem Annotations.Holds.block {branches : List Branch}
    (holds : annotations.Holds (annotateBranches settings around branches)) {branch : Branch}
    (held : branch ∈ branches) : annotations.Holds (branch.block.annotate settings around) := by
  induction branches with
  | nil => cases held
  | cons first others ih =>
    obtain ⟨condition, block⟩ := first
    rw [annotateBranches] at holds
    rcases List.mem_cons.mp held with rfl | held
    · exact fun entry inside => holds entry (List.mem_append_left _ inside)
    · exact ih (fun entry inside => holds entry (List.mem_append_right _ inside)) held

variable {element : Element} (holds : annotations.Holds (element.annotate settings around))

include holds

theorem Annotations.Holds.own :
    annotations.get element.head.id = element.flags settings around := by
  rw [Element.annotate_eq] at holds
  exact holds _ (List.mem_append_left _ List.mem_cons_self)

theorem Annotations.Holds.child {node : Node} (held : node ∈ element.children) :
    annotations.Holds (node.annotate settings
      (element.head.surroundChildren around (element.flags settings around))) := by
  rw [Element.annotate_eq] at holds
  have below : annotations.Holds (annotateNodes settings
      (element.head.surroundChildren around (element.flags settings around)) element.children) :=
    fun entry inside => holds entry (List.mem_append_left _ (List.mem_cons_of_mem _ inside))
  exact below.node held

theorem Annotations.Holds.branch {branch : Branch} (held : branch ∈ element.branches) :
    annotations.Holds (branch.block.annotate settings
      { around with underRoot := around.underRoot || (element.flags settings around).isRoot }) := by
  rw [Element.annotate_eq] at holds
  have beside : annotations.Holds (annotateBranches settings
      { around with underRoot := around.underRoot || (element.flags settings around).isRoot }
      element.branches) := fun entry inside => holds entry (List.mem_append_right _ inside)
  exact beside.block held

end Flags

theorem isStatic_of_holds {settings : Settings} {annotations : Annotations} {around : Surroundings}
    {node : Node} (holds : annotations.Holds (node.annotate settings around)) :
    (annotations.get node.number).isStatic = node.isStatic settings around.inTemplateLoop := by
  cases node with
  | element element =>
    obtain ⟨head, children, branches⟩ := element
    have own : annotations.get head.id = Element.flags settings around ⟨head, children, branches⟩ :=
      holds.own
    rw [Node.number, own]
    rfl
  | text run =>
    rw [Node.number, holds (run.id, ⟨run.segments.isEmpty, false, false⟩) List.mem_cons_self]
    rfl
  | comment comment =>
    rw [Node.number, holds (comment.id, ⟨true, false, false⟩) List.mem_cons_self]
    rfl

section Places

variable {settings : Settings} {annotations : Annotations} {root element : Element}
  {above : List Element} {around : Surroundings}

/-- Along the way down, what is below a root is what is below a static element. -/
theorem Lineage.holds (lineage : Lineage root above element)
    (settled : root.Throughout Element.IsSettled)
    (holds : annotations.Holds (root.annotate settings around)) :
    ∃ here : Surroundings, annotations.Holds (element.annotate settings here) ∧
      here.underRoot = (around.underRoot ||
        above.any fun outer => (annotations.get outer.head.id).isStatic) := by
  induction lineage generalizing around with
  | here element => exact ⟨around, holds, by simp⟩
  | @child parent child element above held inner ih =>
    obtain ⟨own, below⟩ := Element.throughout_iff.mp settled
    obtain ⟨here, inside, under⟩ := ih (below.children _ held) (holds.child held)
    refine ⟨here, inside, ?_⟩
    have nonempty : parent.children.isEmpty = false :=
      List.isEmpty_eq_false_iff.mpr (List.ne_nil_of_mem held)
    rw [under, List.any_cons, holds.own]
    simp only [Head.surroundChildren, Element.flags, Head.flags, nonempty, Bool.not_false,
      Bool.and_true]
    cases around.underRoot <;> rfl
  | @branch parent element branch above held inner ih =>
    obtain ⟨own, below⟩ := Element.throughout_iff.mp settled
    obtain ⟨here, inside, under⟩ := ih (below.branches _ held) (holds.branch held)
    refine ⟨here, inside, ?_⟩
    -- An element with branches has a condition, so it is not static.
    have dynamic : parent.isStatic settings around.inTemplateLoop = false := by
      by_contra isStatic
      have unbranched := own.unbranched (by simpa using isStatic)
      rw [unbranched] at held
      cases held
    rw [under, List.any_cons, holds.own]
    simp [Element.flags, Head.flags, dynamic]

theorem Lineage.allStatic (lineage : Lineage root above element)
    (reserved : settings.platform.isReserved "br" = true)
    (settled : root.Throughout Element.IsSettled)
    (holds : annotations.Holds (root.annotate settings around))
    (isStatic : root.isStatic settings around.inTemplateLoop = true)
    (unrepeated : root.head.repeatsChildren around.inTemplateLoop = false) :
    ∀ node ∈ element.children, (annotations.get node.number).isStatic = true := by
  induction lineage generalizing around with
  | here element =>
    intro node held
    obtain ⟨own, -⟩ := Element.throughout_iff.mp settled
    rw [isStatic_of_holds (holds.child held)]
    simp only [Head.surroundChildren, unrepeated]
    exact own.children reserved isStatic unrepeated node held
  | @child parent child element above held inner ih =>
    obtain ⟨own, below⟩ := Element.throughout_iff.mp settled
    have settledChild := below.children _ held
    have childStatic : child.isStatic settings false = true :=
      own.children reserved isStatic unrepeated _ held
    have fixed := (Element.throughout_iff.mp settledChild).1.isFixed childStatic
    refine ih settledChild (holds.child held) ?_ ?_
    · simpa only [Head.surroundChildren, unrepeated] using childStatic
    · have outside : (parent.head.surroundChildren around
          (parent.flags settings around)).inTemplateLoop = false := unrepeated
      rw [outside]
      simp [Head.repeatsChildren, fixed.loop]
  | @branch parent element branch above held inner ih =>
    obtain ⟨own, -⟩ := Element.throughout_iff.mp settled
    rw [own.unbranched isStatic] at held
    cases held

/-- A root is a static element with children that nothing static is above. -/
theorem Lineage.isRoot_iff (lineage : Lineage root above element)
    (settled : root.Throughout Element.IsSettled)
    (holds : annotations.Holds (root.annotate settings ⟨false, false, false⟩)) :
    (annotations.get element.head.id).isRoot = true ↔
      (annotations.get element.head.id).isStatic = true ∧ element.children ≠ [] ∧
        ∀ outer ∈ above, (annotations.get outer.head.id).isStatic = false := by
  obtain ⟨here, inside, under⟩ := lineage.holds settled holds
  rw [inside.own]
  simp only [Element.flags, Head.flags, under, Bool.false_or, Bool.and_eq_true, Bool.not_eq_true',
    List.any_eq_false, List.isEmpty_eq_false_iff, Bool.not_eq_true]
  tauto

end Places

/-! ## The marks of a document -/

/-- The marks at a place of a tree, below the elements above, outermost first. -/
structure IsMarked (annotations : Annotations) (above : List Element) (element : Element) : Prop where
  /-- What is static takes nothing from data. -/
  isFixed : (annotations.get element.head.id).isStatic = true → element.head.IsFixed
  /-- Below a static element all is static.  Only a verbatim template is static
  whatever is below it, which a loop of a template around it may repeat. -/
  below : (annotations.get element.head.id).isStatic = true →
    (element.head.isVerbatim = false ∨ element.head.tag ≠ "template") →
    ∀ between inner, Lineage element between inner →
      ∀ node ∈ inner.children, (annotations.get node.number).isStatic = true
  isRoot : (annotations.get element.head.id).isRoot = true ↔
    (annotations.get element.head.id).isStatic = true ∧ element.children ≠ [] ∧
      ∀ outer ∈ above, (annotations.get outer.head.id).isStatic = false
  unnested : (annotations.get element.head.id).isRoot = true →
    ∀ outer ∈ above, (annotations.get outer.head.id).isRoot = false
  /-- A static element with children is below just one root, or is one. -/
  covered : (annotations.get element.head.id).isStatic = true → element.children ≠ [] →
    ∃! outer, outer ∈ above ++ [element] ∧ (annotations.get outer.head.id).isRoot = true

theorem exists_first (holds : Element → Bool) {elements : List Element} {last : Element}
    (held : last ∈ elements) (found : holds last = true) :
    ∃ before first behind, elements = before ++ first :: behind ∧ holds first = true ∧
      ∀ element ∈ before, holds element = false := by
  have isSome : (elements.find? holds).isSome = true :=
    List.find?_isSome.mpr ⟨last, held, found⟩
  obtain ⟨first, given⟩ := Option.isSome_iff_exists.mp isSome
  obtain ⟨holdsFirst, before, behind, same, fails⟩ := List.find?_eq_some_iff_append.mp given
  exact ⟨before, first, behind, same, holdsFirst, fun element inside => by simpa using fails element inside⟩

theorem first_unique {holds : Element → Bool} {before behind outside others : List Element}
    {first other : Element} (same : before ++ first :: behind = outside ++ other :: others)
    (found : holds first = true) (noneBefore : ∀ element ∈ before, holds element = false)
    (foundOther : holds other = true) (noneOutside : ∀ element ∈ outside, holds element = false) :
    other = first := by
  rcases List.append_eq_append_iff.mp same with ⟨between, rfl, rest⟩ | ⟨between, rfl, rest⟩
  · cases between with
    | nil => exact (List.cons.inj rest).1.symm
    | cons next more =>
      obtain ⟨rfl, -⟩ := List.cons.inj rest
      have fails := noneOutside first (List.mem_append_right _ List.mem_cons_self)
      rw [found] at fails
      cases fails
  · cases between with
    | nil => exact (List.cons.inj rest).1
    | cons next more =>
      obtain ⟨rfl, -⟩ := List.cons.inj rest
      have fails := noneBefore other (List.mem_append_right _ List.mem_cons_self)
      rw [foundOther] at fails
      cases fails

theorem Lineage.isMarked {settings : Settings} {annotations : Annotations} {root element : Element}
    {above : List Element} (lineage : Lineage root above element)
    (reserved : settings.platform.isReserved "br" = true)
    (settled : root.Throughout Element.IsSettled)
    (holds : annotations.Holds (root.annotate settings ⟨false, false, false⟩)) :
    IsMarked annotations above element := by
  obtain ⟨here, inside, -⟩ := lineage.holds settled holds
  have marked : (annotations.get element.head.id).isStatic =
      element.isStatic settings here.inTemplateLoop := by
    rw [inside.own]
    rfl
  have settledHere : element.Throughout Element.IsSettled := by
    intro between inner further
    exact settled _ _ (lineage.trans further)
  have own := (Element.throughout_iff.mp settledHere).1
  have isRoot := lineage.isRoot_iff settled holds
  refine ⟨?_, ?_, isRoot, ?_, ?_⟩
  · intro isStatic
    exact own.isFixed (marked ▸ isStatic)
  · intro isStatic shape between inner further
    rw [marked] at isStatic
    refine further.allStatic reserved settledHere inside isStatic ?_
    rcases shape with plain | tag
    · rw [Element.isStatic_eq, Bool.and_eq_true, Bool.and_eq_true] at isStatic
      have noTemplate : element.head.tag ≠ "template" := by
        intro tag
        simp [Head.isStatic, plain, tag] at isStatic
      simp [Head.repeatsChildren, noTemplate]
    · simp [Head.repeatsChildren, tag]
  · intro rooted outer held
    obtain ⟨before, behind, rfl⟩ := List.append_of_mem held
    have way : (before ++ outer :: behind) ++ [element] = before ++ outer :: (behind ++ [element]) := by
      simp
    have outerRoot := (lineage.split way).isRoot_iff settled holds
    have dynamic := (isRoot.mp rooted).2.2 outer held
    by_contra nested
    have isStatic := (outerRoot.mp (by simpa using nested)).1
    rw [dynamic] at isStatic
    cases isStatic
  · intro isStatic nonempty
    -- The outermost static element on the way down is a root, and what is below it is none.
    obtain ⟨before, first, behind, way, firstStatic, noneBefore⟩ :=
      exists_first (fun outer => (annotations.get outer.head.id).isStatic)
        (List.mem_append_right above (List.mem_singleton_self element)) isStatic
    have wayDown := lineage.split way
    have firstRoot := wayDown.isRoot_iff settled holds
    have firstParts : first.children ≠ [] := by
      have inChain : first ∈ above ++ [element] := by simp [way]
      rcases List.mem_append.mp inChain with held | held
      · rcases lineage.hasParts held with parts | branched
        · exact parts
        · obtain ⟨there, insideFirst, -⟩ := wayDown.holds settled holds
          have markedFirst : first.isStatic settings there.inTemplateLoop = true := by
            have own := insideFirst.own
            rw [own] at firstStatic
            exact firstStatic
          exact absurd ((settled _ _ wayDown).unbranched markedFirst) branched
      · rw [List.mem_singleton.mp held]
        exact nonempty
    refine ⟨first, ⟨by simp [way], firstRoot.mpr ⟨firstStatic, firstParts, noneBefore⟩⟩, ?_⟩
    rintro other ⟨held, rooted⟩
    obtain ⟨outside, others, otherWay⟩ := List.append_of_mem held
    have otherRoot := ((lineage.split otherWay).isRoot_iff settled holds).mp rooted
    exact first_unique (way.symm.trans otherWay) firstStatic noneBefore otherRoot.1 otherRoot.2.2

/-- What the analysis marks in a template that has been read. -/
theorem analyze_isMarked {base : Settings} (known : IsBase base) {overlay : Overlay}
    (unextended : overlay.extensions = []) (source : String) :
    ∀ root ∈ (Document.parse (base.overlaid overlay) source).1.root,
      ∀ above element, Lineage root above element →
        IsMarked ((Document.parse (base.overlaid overlay) source).1.analyze (base.overlaid overlay))
          above element := by
  intro root held above element lineage
  have settled := parse_settled (bare_isFaithful known unextended) source root held
  have holds := analyze_holds (bare_keepsNumber known unextended) source root held
  refine lineage.isMarked ?_ settled holds
  rcases known with rfl | rfl
  · exact (by decide +kernel : Web.platform.isReserved "br" = true)
  · rfl

/-- A root below a condition, one in a loop, and a verbatim part. -/
def markedSource : String :=
  "<div><p v-if=\"a\"><b>x</b></p><ul><li v-for=\"y in ys\"><i>z</i></li></ul><u v-pre :c=\"d\">{{ e }}</u></div>"

theorem markedSource_isMarked :
    IsBase Web.settings ∧ Overlay.empty.extensions = [] ∧
      (((Document.parse (Web.settings.overlaid .empty) markedSource).1.analyze
        (Web.settings.overlaid .empty)).table.map fun flags => (flags.isStatic, flags.isRoot)) =
        [(false, false), (false, false), (true, true), (true, false), (false, false), (false, false),
          (true, true), (true, false), (true, true), (true, false)] ∧
      ∀ root ∈ (Document.parse (Web.settings.overlaid .empty) markedSource).1.root,
        ∀ above element, Lineage root above element →
          IsMarked ((Document.parse (Web.settings.overlaid .empty) markedSource).1.analyze
            (Web.settings.overlaid .empty)) above element :=
  ⟨.inl rfl, rfl, by decide +kernel, analyze_isMarked (.inl rfl) rfl markedSource⟩

end Templating.Template
