import Templating.Proofs.Translation.Drafts
import Templating.Proofs.Translation.Programs
import Templating.Proofs.Translation.Still
/-!
# Fragments are inert

What the analysis marks as a static root is still, so the source of every
fragment is read as an inert expression, whatever the rest of the template
holds.  This needs no check: a part that is not still is never hoisted, unless
it is to be rendered once.
-/
set_option autoImplicit false

namespace Templating.Rendering

open Templating.Text Templating.Data Templating.Template Templating.Expression

/-! ## Static elements are still -/

theorem staticKeys_cases {settings : Settings} (standard : StandardSettings settings) {key : String}
    (held : key ∈ settings.staticKeys) : key = "staticClass" ∨ key = "staticStyle" := by
  rw [Settings.staticKeys] at held
  rcases standard.extensions with none | both
  · rw [none] at held
    cases held
  · have listed : sortedNames (settings.extensions.flatMap Extension.staticKeys) =
        ["staticClass", "staticStyle"] := by
      rw [both]
      decide
    simpa [listed] using held

theorem extension_isConstant {given : Given} {entry : String × String} (stems : ExtensionFrom given entry)
    (key : entry.1 = "staticClass" ∨ entry.1 = "staticStyle") :
    readsAlone entry.2 = true ∧ IsConstant (captured entry.2) := by
  cases stems with
  | classes value same =>
    obtain ⟨reads, means⟩ := readsAlone_encode (join " " ((Text.words value.toList).map String.ofList))
    rw [same]
    exact ⟨reads, by rw [Web.classCode, means]; trivial⟩
  | styles value same =>
    obtain ⟨reads, means⟩ := readsAlone_styleCode value
    rw [same]
    refine ⟨reads, ?_⟩
    rw [means]
    refine (entriesConstant_iff _).mpr fun field held => ?_
    obtain ⟨style, -, rfl⟩ := List.mem_map.mp held
    exact ⟨⟨style.1, rfl⟩, trivial⟩
  | bound name value binds held same => simp [same] at key
  | grouped name value binds held same => simp [same] at key

theorem isStill_of_isStatic {settings : Settings} (standard : StandardSettings settings) {head : Head}
    (ready : Ready head head) (plain : head.isVerbatim = false) {inTemplateLoop : Bool}
    (isStatic : head.isStatic settings inTemplateLoop = true) : IsStill head := by
  simp only [Head.isStatic, Head.hasBindings, plain, Bool.false_or, Bool.and_eq_true,
    Bool.not_eq_true', Bool.or_eq_false_iff, Bool.not_eq_false', List.isEmpty_iff,
    Option.isNone_iff_eq_none, Option.isSome_eq_false_iff, List.any_eq_false, List.all_eq_true]
    at isStatic
  obtain ⟨⟨⟨⟨⟨⟨⟨⟨⟨⟨⟨⟨⟨⟨bindings, condition⟩, loop⟩, once⟩, key⟩, ref⟩, component⟩, outletName⟩, slotTarget⟩,
    -⟩, -⟩, -⟩, -⟩, -⟩, extensions⟩ := isStatic
  obtain ⟨⟨⟨⟨⟨attributes, props⟩, listeners⟩, nativeListeners⟩, directives⟩, spread⟩ := bindings
  exact
    { attributes := fun item held => by simpa using attributes item held
      props, listeners, nativeListeners, directives, key, ref, condition, loop, isOnce := once
      component, outletName, slotTarget, spread
      extensions := fun entry held =>
        extension_isConstant (ready.extensions entry held)
          (staticKeys_cases standard (by simpa using extensions entry held)) }

mutual

theorem stillElement_of_isStatic {settings : Settings} (standard : StandardSettings settings)
    (element : Element) (formed : FormedElement element) (inTemplateLoop : Bool)
    (isStatic : element.isStatic settings inTemplateLoop = true) : StillElement element := by
  cases verbatim : element.head.isVerbatim with
  | true => exact stillElement_of_raw element ((formedElement_raw element verbatim).mp formed)
  | false =>
    match element with
    | ⟨head, children, branches⟩ =>
      have plain : head.isVerbatim = false := verbatim
      obtain ⟨named, ready, formedChildren, -⟩ :=
        (formedElement_plain ⟨head, children, branches⟩ verbatim).mp formed
      simp only [Element.isStatic, plain, Bool.false_or, Bool.and_eq_true] at isStatic
      exact ⟨isStill_of_isStatic standard ready plain isStatic.1.1, named,
        stillNodes_of_allStatic standard children formedChildren _ isStatic.1.2⟩

theorem stillNodes_of_allStatic {settings : Settings} (standard : StandardSettings settings)
    (nodes : List Node) (formed : FormedNodes nodes) (inTemplateLoop : Bool)
    (isStatic : allStatic settings inTemplateLoop nodes = true) : StillNodes nodes := by
  match nodes with
  | [] => trivial
  | node :: rest =>
    rw [allStatic, Bool.and_eq_true] at isStatic
    refine ⟨?_, stillNodes_of_allStatic standard rest formed.2 inTemplateLoop isStatic.2⟩
    match node with
    | .element element =>
      exact stillElement_of_isStatic standard element formed.1 inTemplateLoop isStatic.1
    | .text run => exact List.isEmpty_iff.mp isStatic.1
    | .comment _ => trivial

end

/-! ## Fragments among the layers -/

mutual

/-- What is hoisted anywhere in the tree is still, and nothing in it is hoisted
again. -/
def FragmentsStill (annotations : Annotations) : Element → Prop
  | ⟨head, children, branches⟩ =>
    (.hoist ∈ layers (annotations.get head.id) head →
      IsStill head ∧ Markup.IsTagName head.tag ∧ StillNodes children ∧
        NodesUnhoisted annotations children) ∧
      NodesFragmentsStill annotations children ∧ BranchesFragmentsStill annotations branches

def NodesFragmentsStill (annotations : Annotations) : List Node → Prop
  | [] => True
  | .element element :: rest =>
    FragmentsStill annotations element ∧ NodesFragmentsStill annotations rest
  | _ :: rest => NodesFragmentsStill annotations rest

def BranchesFragmentsStill (annotations : Annotations) : List Branch → Prop
  | [] => True
  | ⟨_, block⟩ :: rest =>
    FragmentsStill annotations block ∧ BranchesFragmentsStill annotations rest

end

theorem isRoot_of_hoist {flags : Flags} {head : Head} (once : head.isOnce = false)
    (held : Layer.hoist ∈ layers flags head) : flags.isRoot = true := by
  by_contra unhoisted
  cases repeated : head.loop.isSome <;> cases chosen : head.condition.isSome <;>
    simp [layers, unhoisted, once, repeated, chosen] at held

mutual

theorem unhoisted_of_annotate {settings : Settings} {annotations : Annotations}
    (around : Surroundings) (under : around.underRoot = true) (element : Element)
    (holds : annotations.Holds (element.annotate settings around)) :
    Unhoisted annotations element := by
  match element with
  | ⟨head, children, branches⟩ =>
    rw [Element.annotate] at holds
    have below : annotations.Holds (annotateNodes settings (head.surroundChildren around
        (head.flags around (Element.isStatic settings around.inTemplateLoop ⟨head, children, branches⟩)
          (!children.isEmpty))) children) := fun entry held =>
      holds entry (List.mem_append_left _ (List.mem_cons_of_mem _ held))
    refine ⟨?_, nodesUnhoisted_of_annotate _ ?_ children below⟩
    · rw [holds _ (List.mem_append_left _ List.mem_cons_self)]
      simp [Head.flags, under]
    · simp [Head.surroundChildren, under]

theorem nodesUnhoisted_of_annotate {settings : Settings} {annotations : Annotations}
    (around : Surroundings) (under : around.underRoot = true) (nodes : List Node)
    (holds : annotations.Holds (annotateNodes settings around nodes)) :
    NodesUnhoisted annotations nodes := by
  match nodes with
  | [] => trivial
  | node :: rest =>
    rw [annotateNodes] at holds
    refine ⟨?_, nodesUnhoisted_of_annotate around under rest fun entry held =>
      holds entry (List.mem_append_right _ held)⟩
    match node with
    | .element element =>
      exact unhoisted_of_annotate around under element fun entry held =>
        holds entry (List.mem_append_left _ held)
    | .text _ => trivial
    | .comment _ => trivial

end

def IsRepeatable (head : Head) : Prop := head.isOnce = false

instance : DecidablePred IsRepeatable := fun head =>
  inferInstanceAs (Decidable (head.isOnce = false))

/-- The tree is raw, or formed and without elements that are rendered once. -/
def IsRegular (element : Element) : Prop :=
  RawElement element ∨ FormedElement element ∧ element.EveryHead IsRepeatable

def AreRegular (nodes : List Node) : Prop :=
  RawNodes nodes ∨ FormedNodes nodes ∧ EveryHeadOfNodes IsRepeatable nodes

theorem IsRegular.still {settings : Settings} (standard : StandardSettings settings) {element : Element}
    (regular : IsRegular element) {inTemplateLoop : Bool}
    (isStatic : element.isStatic settings inTemplateLoop = true) : StillElement element := by
  rcases regular with raw | ⟨formed, -⟩
  · exact stillElement_of_raw element raw
  · exact stillElement_of_isStatic standard element formed inTemplateLoop isStatic

theorem IsRegular.isRepeatable {head : Head} {children : List Node} {branches : List Branch}
    (regular : IsRegular ⟨head, children, branches⟩) : head.isOnce = false := by
  rcases regular with raw | ⟨formed, every⟩
  · exact raw.1.isOnce
  · rcases every with verbatim | ⟨here, -⟩
    · have raw := (formedElement_raw ⟨head, children, branches⟩ verbatim).mp formed
      exact raw.1.isOnce
    · exact here

theorem IsRegular.children {head : Head} {children : List Node} {branches : List Branch}
    (regular : IsRegular ⟨head, children, branches⟩) : AreRegular children := by
  rcases regular with raw | ⟨formed, every⟩
  · exact .inl raw.2.2.1
  · cases verbatim : head.isVerbatim with
    | true => exact .inl ((formedElement_raw ⟨head, children, branches⟩ verbatim).mp formed).2.2.1
    | false =>
      rw [Element.EveryHead, verbatim] at every
      obtain impossible | ⟨-, below, -⟩ := every
      · cases impossible
      · have parts := (formedElement_plain ⟨head, children, branches⟩ verbatim).mp formed
        exact .inr ⟨parts.2.2.1, below⟩

theorem IsRegular.branches {head : Head} {children : List Node} {branches : List Branch}
    (regular : IsRegular ⟨head, children, branches⟩) :
    FormedBranches branches ∧ EveryHeadOfBranches IsRepeatable branches := by
  have none (raw : RawElement ⟨head, children, branches⟩) :
      FormedBranches branches ∧ EveryHeadOfBranches IsRepeatable branches := by
    rw [raw.2.2.2]
    exact ⟨trivial, trivial⟩
  rcases regular with raw | ⟨formed, every⟩
  · exact none raw
  · cases verbatim : head.isVerbatim with
    | true => exact none ((formedElement_raw ⟨head, children, branches⟩ verbatim).mp formed)
    | false =>
      rw [Element.EveryHead, verbatim] at every
      obtain impossible | ⟨-, -, beside⟩ := every
      · cases impossible
      · have parts := (formedElement_plain ⟨head, children, branches⟩ verbatim).mp formed
        exact ⟨parts.2.2.2, beside⟩

theorem AreRegular.first {element : Element} {rest : List Node}
    (regular : AreRegular (.element element :: rest)) : IsRegular element :=
  regular.imp (fun raw => raw.1) fun both => ⟨both.1.1, both.2.1⟩

theorem AreRegular.rest {node : Node} {rest : List Node} (regular : AreRegular (node :: rest)) :
    AreRegular rest :=
  regular.imp (fun raw => raw.2) fun both => ⟨both.1.2, both.2.2⟩

mutual

/-- An element is hoisted for being a static root only. -/
theorem fragmentsStill_of_annotate {settings : Settings} (standard : StandardSettings settings)
    {annotations : Annotations} (around : Surroundings) (element : Element)
    (regular : IsRegular element) (holds : annotations.Holds (element.annotate settings around)) :
    FragmentsStill annotations element := by
  match element with
  | ⟨head, children, branches⟩ =>
    have whole := holds
    rw [Element.annotate] at holds
    have below : annotations.Holds (annotateNodes settings (head.surroundChildren around
        (head.flags around (Element.isStatic settings around.inTemplateLoop ⟨head, children, branches⟩)
          (!children.isEmpty))) children) := fun entry inside =>
      holds entry (List.mem_append_left _ (List.mem_cons_of_mem _ inside))
    refine ⟨fun hoisted => ?_, nodesFragmentsStill_of_annotate standard _ children regular.children below,
      branchesFragmentsStill_of_annotate standard _ branches regular.branches.1 regular.branches.2
        fun entry inside => holds entry (List.mem_append_right _ inside)⟩
    have isRoot := isRoot_of_hoist regular.isRepeatable hoisted
    have flags := holds _ (List.mem_append_left _ List.mem_cons_self)
    simp only at flags
    rw [flags] at isRoot
    have isStatic :
        Element.isStatic settings around.inTemplateLoop ⟨head, children, branches⟩ = true := by
      simp only [Head.flags, Bool.and_eq_true] at isRoot
      exact isRoot.1.2
    obtain ⟨still, named, inside⟩ := regular.still standard isStatic
    exact ⟨still, named, inside, nodesUnhoisted_of_annotate _
      (by simp [Head.surroundChildren, isRoot]) children below⟩

theorem nodesFragmentsStill_of_annotate {settings : Settings} (standard : StandardSettings settings)
    {annotations : Annotations} (around : Surroundings) (nodes : List Node)
    (regular : AreRegular nodes) (holds : annotations.Holds (annotateNodes settings around nodes)) :
    NodesFragmentsStill annotations nodes := by
  match nodes with
  | [] => trivial
  | node :: rest =>
    rw [annotateNodes] at holds
    have others := nodesFragmentsStill_of_annotate standard around rest regular.rest
      fun entry held => holds entry (List.mem_append_right _ held)
    match node with
    | .element element =>
      exact ⟨fragmentsStill_of_annotate standard around element regular.first
        fun entry held => holds entry (List.mem_append_left _ held), others⟩
    | .text _ => exact others
    | .comment _ => exact others

theorem branchesFragmentsStill_of_annotate {settings : Settings} (standard : StandardSettings settings)
    {annotations : Annotations} (around : Surroundings) (branches : List Branch)
    (formed : FormedBranches branches) (every : EveryHeadOfBranches IsRepeatable branches)
    (holds : annotations.Holds (annotateBranches settings around branches)) :
    BranchesFragmentsStill annotations branches := by
  match branches with
  | [] => trivial
  | ⟨_, block⟩ :: rest =>
    rw [annotateBranches] at holds
    exact ⟨fragmentsStill_of_annotate standard around block (.inr ⟨formed.2.2.1, every.1⟩)
        fun entry held => holds entry (List.mem_append_left _ held),
      branchesFragmentsStill_of_annotate standard around rest formed.2.2.2 every.2
        fun entry held => holds entry (List.mem_append_right _ held)⟩

end

/-! ## Inert fragments -/

theorem NodesFragmentsStill.element {annotations : Annotations} {nodes : List Node}
    (still : NodesFragmentsStill annotations nodes) {child : Element}
    (held : .element child ∈ nodes) : FragmentsStill annotations child := by
  induction nodes with
  | nil => cases held
  | cons node rest ih =>
    cases node with
    | element first =>
      obtain ⟨here, others⟩ := still
      rcases List.mem_cons.mp held with same | inside
      · cases same
        exact here
      · exact ih others inside
    | text run => exact ih still (List.mem_of_ne_of_mem (by simp) held)
    | comment comment => exact ih still (List.mem_of_ne_of_mem (by simp) held)

theorem BranchesFragmentsStill.block {annotations : Annotations} {branches : List Branch}
    (still : BranchesFragmentsStill annotations branches) {branch : Branch}
    (held : branch ∈ branches) : FragmentsStill annotations branch.block := by
  induction branches with
  | nil => cases held
  | cons first rest ih =>
    obtain ⟨condition, block⟩ := first
    obtain ⟨here, others⟩ := still
    rcases List.mem_cons.mp held with same | inside
    · rw [same]
      exact here
    · exact ih others inside

theorem FragmentsStill.throughout {annotations : Annotations} {root : Element}
    (still : FragmentsStill annotations root) : root.Throughout (FragmentsStill annotations) := by
  intro above element lineage
  refine lineage.keep ?_ ?_ still
  · rintro ⟨head, children, branches⟩ child ⟨-, below, -⟩ held
    exact below.element held
  · rintro ⟨head, children, branches⟩ ⟨-, -, beside⟩ branch held
    exact beside.block held

def IsInertSource (source : String) : Prop :=
  ∃ meaning, parseProgram? source = some meaning ∧ IsInert meaning

theorem IsFragmentOf.isInert {context : Context} (standard : StandardSettings context.settings)
    {element : Element} (still : FragmentsStill context.annotations element) {fragment : Code}
    (own : IsFragmentOf context element fragment) : IsInertSource fragment.text := by
  obtain ⟨head, children, branches⟩ := element
  obtain ⟨hoists, -, -⟩ := still
  obtain ⟨outer, inner, around, loops, draft, rfl⟩ := own
  dsimp only at around ⊢
  have hoisted : .hoist ∈ layers (context.annotations.get head.id) head := by
    rw [around]
    exact List.mem_append_right outer List.mem_cons_self
  obtain ⟨stillHead, named, below, unhoisted⟩ := hoists hoisted
  -- a still element has no layer but this one
  obtain rfl : inner = [] := by
    rw [stillHead.layers_root (isRoot_of_hoist stillHead.isOnce hoisted)] at around
    cases outer with
    | nil => exact (List.cons.inj around).2.symm
    | cons first others => simp at around
  obtain ⟨codes, same⟩ := stillNodes_write children below unhoisted
  obtain ⟨written, run⟩ := writeChildren_eq_pure children same
  obtain ⟨code, writes⟩ := stillHead.writeCore context run
  obtain ⟨meaning, inert, translates⟩ := still_core context.settings stillHead children below
  have agrees := core_agrees standard (stillHead.soundHead named)
    (stillNodes_agree standard children below unhoisted)
    (nodeWriters_length context children) [] (fun _ held => by cases held) .empty .empty ⟨.nil, rfl⟩
  rw [writes, translates _ unhoisted] at agrees
  rw [List.foldr_nil, writes]
  exact ⟨meaning, wrapped_reads agrees.1, inert⟩

theorem Transition.keepsInert {context : Context} (standard : StandardSettings context.settings)
    {elements : List Element} {before after : Draft} {gained : Code}
    (transition : Transition context (FragmentsStill context.annotations) elements before gained after)
    (inert : ∀ code ∈ before.fragments, IsInertSource code.text) :
    ∀ code ∈ after.fragments, IsInertSource code.text := by
  induction transition with
  | nothing draft => exact inert
  | append one two first second => exact second (first inert)
  | report held own draft => exact inert
  | fragment still own inner inLoop ih =>
    intro code held
    rcases List.mem_append.mp held with earlier | here
    · exact ih inert code earlier
    · rw [List.mem_singleton.mp here]
      exact own.isInert standard still
  | number draft => exact inert

/-! ## Compiled templates -/

mutual

theorem fragmentsStill_empty (element : Element) (regular : IsRegular element) :
    FragmentsStill .empty element := by
  match element with
  | ⟨head, children, branches⟩ =>
    refine ⟨fun hoisted => ?_, nodesFragmentsStill_empty children regular.children,
      branchesFragmentsStill_empty branches regular.branches.1 regular.branches.2⟩
    have isRoot := isRoot_of_hoist regular.isRepeatable hoisted
    cases isRoot

theorem nodesFragmentsStill_empty (nodes : List Node) (regular : AreRegular nodes) :
    NodesFragmentsStill .empty nodes := by
  match nodes with
  | [] => trivial
  | .element element :: rest =>
    exact ⟨fragmentsStill_empty element regular.first, nodesFragmentsStill_empty rest regular.rest⟩
  | .text _ :: rest => exact nodesFragmentsStill_empty rest regular.rest
  | .comment _ :: rest => exact nodesFragmentsStill_empty rest regular.rest

theorem branchesFragmentsStill_empty (branches : List Branch) (formed : FormedBranches branches)
    (every : EveryHeadOfBranches IsRepeatable branches) : BranchesFragmentsStill .empty branches := by
  match branches with
  | [] => trivial
  | ⟨_, block⟩ :: rest =>
    exact ⟨fragmentsStill_empty block (.inr ⟨formed.2.2.1, every.1⟩),
      branchesFragmentsStill_empty rest formed.2.2.2 every.2⟩

end

/-- What a compiled template hoists is still. -/
theorem compile_fragmentsStill {base : Settings} (known : IsBase base) {overlay : Overlay}
    (plain : overlay.isPlain = true) (template : String)
    (repeatable : (compile (base.overlaid overlay) template).document.EveryHead IsRepeatable) :
    ∀ root ∈ (compile (base.overlaid overlay) template).document.root,
      FragmentsStill (compile (base.overlaid overlay) template).annotations root := by
  obtain ⟨parsed, annotated, -⟩ := compile_parts (base.overlaid overlay) template
  have formed := parse_formed (base_isFaithful known plain) (trimmed template)
  have holds := analyze_holds (base_keepsNumber known plain) (trimmed template)
  rw [← parsed] at formed holds
  intro root held
  have regular : IsRegular root := .inr ⟨formed root held, repeatable root held⟩
  rw [annotated]
  split
  · exact fragmentsStill_of_annotate (base_standard known plain) _ root regular (holds root held)
  · exact fragmentsStill_empty root regular

theorem fragments_inert {base : Settings} (known : IsBase base) {overlay : Overlay}
    (plain : overlay.isPlain = true) (template : String)
    (repeatable : (compile (base.overlaid overlay) template).document.EveryHead IsRepeatable) :
    ∀ source ∈ (compile (base.overlaid overlay) template).fragments, IsInertSource source := by
  have still := compile_fragmentsStill known plain template repeatable
  obtain ⟨-, -, written, -⟩ := compile_parts (base.overlaid overlay) template
  generalize compile (base.overlaid overlay) template = compiled at still written
  obtain ⟨after, transition, same, -⟩ := generate_transition (base.overlaid overlay)
    compiled.annotations fun root held => (still root held).throughout
  intro source held
  rw [Compiled.fragments, written, same] at held
  obtain ⟨code, inside, rfl⟩ := List.mem_map.mp held
  refine transition.keepsInert ?_ (fun _ none => by cases none) code inside
  exact base_standard known plain

end Templating.Rendering
