import Templating.Proofs.Template.Heads
import Templating.Proofs.Template.Reading
import Templating.Proofs.Translation.Alone
import Templating.Proofs.Translation.Trees
import Templating.Template.Check
/-!
# What a check without errors says

The check looks at the attributes of the source, and source is made of the parts
of heads.  As these stem from the attributes, no error means that all captured
code reads alone, except for the code that the check does not look at.
-/
set_option autoImplicit false

namespace Templating.Rendering

open Templating.Text Templating.Data Templating.Template Templating.Expression

/-! ## Code that the check looks at -/

theorem readsAlone_of_expressionProblems {code raw : String}
    (checked : expressionProblems code raw = []) : readsAlone code = true := by
  unfold expressionProblems at checked
  split at checked
  · cases checked
  · next lexical =>
    unfold lexicalProblem? at lexical
    split at lexical
    · cases lexical
    · rw [Option.map_eq_none_iff] at lexical
      split at checked
      · next parsed => simp [readsAlone, lexical, parsed]
      · cases checked

theorem attributeProblems_of_check {head : Head} (checked : head.check = []) {name value : String}
    (held : Given.holds head.given name value) : attributeProblems head name value = [] := by
  obtain ⟨given, inside, rfl⟩ := held
  rw [Head.check, List.map_eq_nil_iff, List.flatMap_eq_nil_iff] at checked
  exact checked _ inside

theorem isBindingName_cases {name : String} (binds : isBindingName name = true) :
    ∃ rest, name.toList = ':' :: rest ∨ name.toList = "v-bind".toList ++ rest := by
  simp only [isBindingName, Bool.or_eq_true, beq_iff_eq, after_isSome_iff] at binds
  rcases binds with (⟨rest, split⟩ | ⟨rest, split⟩) | same
  · exact ⟨rest, .inl split.symm⟩
  · exact ⟨':' :: rest, .inr split.symm⟩
  · obtain ⟨rest, split, -⟩ := splitModifiers_append name
    exact ⟨rest, .inr (same ▸ split)⟩

theorem readsAlone_of_directive {head : Head} (checked : head.check = []) {name value : String}
    (held : Given.holds head.given name value) (filled : value ≠ "")
    (directive : AttributeName.isDirective name = true) (noLoop : name ≠ "v-for")
    (noSlot : Head.isSlotName name = false) (noListener : isListenerName name = false) :
    readsAlone value = true := by
  have problems := attributeProblems_of_check checked held
  simp only [Head.isSlotName, Bool.or_eq_false_iff, beq_eq_false_iff_ne] at noSlot
  simp only [isListenerName, Bool.or_eq_false_iff] at noListener
  simp only [attributeProblems, beq_iff_eq, filled, directive, noLoop, noSlot, noListener,
    Bool.not_true, Bool.or_self, Bool.false_eq_true, if_false, Bool.or_false] at problems
  exact readsAlone_of_expressionProblems problems

theorem readsAlone_of_binding {head : Head} (checked : head.check = []) {name value : String}
    (held : Given.holds head.given name value) (filled : value ≠ "")
    (binds : isBindingName name = true) : readsAlone value = true := by
  obtain ⟨rest, short | long⟩ := isBindingName_cases binds
  · refine readsAlone_of_directive checked held filled ?_ ?_ ?_ ?_
    · simp [AttributeName.isDirective, short]
    · rintro rfl
      simp at short
    · simp [Head.isSlotName, AttributeName.after?, short, dropLeading?, ← String.toList_inj]
    · simp [isListenerName, AttributeName.after?, short, dropLeading?]
  · refine readsAlone_of_directive checked held filled ?_ ?_ ?_ ?_
    · simp [AttributeName.isDirective, long]
    · rintro rfl
      simp at long
    · simp [Head.isSlotName, AttributeName.after?, long, dropLeading?, ← String.toList_inj]
    · simp [isListenerName, AttributeName.after?, long, dropLeading?]

theorem readsAlone_of_condition {head : Head} (checked : head.check = []) {name value : String}
    (named : name = "v-if" ∨ name = "v-else-if") (held : Given.holds head.given name value)
    (filled : value ≠ "") : readsAlone value = true := by
  rcases named with rfl | rfl
  · exact readsAlone_of_directive checked held filled (by decide) (by decide) (by decide) (by decide)
  · exact readsAlone_of_directive checked held filled (by decide) (by decide) (by decide) (by decide)

theorem loop_of_check {head : Head} (checked : head.check = []) {value : String} {header : Loop}
    (held : Given.holds head.given "v-for" value) (parsed : Loop.parse? value = some header)
    (repeated : head.loop = some header) :
    readsAlone header.source = true ∧
      ∀ name ∈ header.targets, (parsePattern? name).isSome = true := by
  have problems := attributeProblems_of_check checked held
  have empty : (value == "") = false := by
    by_contra blank
    simp only [Bool.not_eq_false, beq_iff_eq] at blank
    subst blank
    have none : Loop.parse? "" = none := by decide
    rw [none] at parsed
    cases parsed
  have directive : AttributeName.isDirective "v-for" = true := by decide
  simp only [attributeProblems, empty, directive, Bool.not_true, Bool.or_self, Bool.false_eq_true,
    if_false, beq_self_eq_true, if_true, repeated, Option.toList_some, List.flatMap_cons,
    List.flatMap_nil, List.append_nil, loopProblems, List.append_eq_nil_iff] at problems
  obtain ⟨⟨⟨source, item⟩, first⟩, second⟩ := problems
  have named {role : LoopVariable} {raw name : String} (fine : variableProblems role raw name = []) :
      (parsePattern? name).isSome = true := by
    unfold variableProblems at fine
    split at fine
    · next parsed => exact parsed
    · cases fine
  refine ⟨readsAlone_of_expressionProblems source, fun name inside => ?_⟩
  rw [Loop.targets, List.mem_cons, List.mem_append] at inside
  rcases inside with rfl | inside | inside
  · exact named item
  · exact named (List.flatMap_eq_nil_iff.mp first name inside)
  · exact named (List.flatMap_eq_nil_iff.mp second name inside)

/-! ## Heads -/

/-- Code that goes into source and that the check does not look at: computed
names, the outlet that a slot attribute names, and the values of slot attributes
that have become directives. -/
def uncheckedCodes (head : Head) : List String :=
  ((head.attributes ++ head.props).filter Attribute.hasNameExpression).map Attribute.name ++
    (head.directives.filter Directive.hasArgumentExpression).flatMap
      (fun directive => directive.argument.toList) ++
    ((head.listeners ++ head.nativeListeners).filter Listener.hasNameExpression).map Listener.event ++
    head.slotTarget.toList ++
    (head.directives.filter fun directive =>
      Head.isSlotName directive.rawName && directive.value != "").map Directive.value

def IsFilled (entry : String × Option String) : Prop :=
  isBindingName entry.1 = true ∨ entry.1 = "v-else-if" → entry.2.getD "" ≠ ""

section Head

variable {head : Head} (ready : Ready head head) (checked : head.check = [])
  (filled : ∀ entry ∈ head.given, IsFilled entry)
  (unchecked : ∀ code ∈ uncheckedCodes head, readsAlone code = true)

include filled in
theorem filled_of_held {name value : String} (held : Given.holds head.given name value)
    (named : isBindingName name = true ∨ name = "v-else-if") : value ≠ "" := by
  obtain ⟨given, inside, rfl⟩ := held
  exact filled _ inside named

include checked filled

theorem readsAlone_of_held {name value : String} (held : Given.holds head.given name value)
    (binds : isBindingName name = true) : readsAlone value = true :=
  readsAlone_of_binding checked held (filled_of_held filled held (.inl binds)) binds

theorem extension_readsAlone {entry : String × String} (stems : ExtensionFrom head.given entry) :
    readsAlone entry.2 = true := by
  cases stems with
  | classes value same => exact same ▸ (readsAlone_encode _).1
  | styles value same => exact same ▸ (readsAlone_styleCode value).1
  | bound name value binds held same => exact same ▸ readsAlone_of_held checked filled held binds
  | grouped name value binds held same =>
    exact same ▸ (readsAlone_grouped (readsAlone_of_held checked filled held binds)).1

theorem attribute_sound {item : Attribute} (stems : AttributeFrom head.given item)
    (named : item.hasNameExpression = true → readsAlone item.name = true) : SoundAttribute item := by
  intro code held
  rw [attributeSplices, List.mem_append] at held
  rcases held with held | held
  · split at held
    · next computed => exact List.mem_singleton.mp held ▸ named computed
    · cases held
  · split at held
    · next bound =>
      cases stems with
      | literal plain => simp [Attribute.isDynamic, bound] at plain
      | binding name binds given =>
        exact List.mem_singleton.mp held ▸ readsAlone_of_held checked filled given binds
    · cases held

theorem code_readsAlone {code : String} (stems : CodeFrom head.given code) :
    readsAlone code = true := by
  cases stems with
  | literal content same => exact same ▸ (readsAlone_encode content).1
  | binding name binds held => exact readsAlone_of_held checked filled held binds

include ready unchecked

/-- Where the check finds nothing, only the code that it does not look at has to
be looked at. -/
theorem soundHead_of_check (named : Markup.IsTagName head.tag)
    (listeners : ∀ group ∈ listenerGroups head.listeners, GroupReads group)
    (nativeListeners : ∀ group ∈ listenerGroups head.nativeListeners, GroupReads group) :
    SoundHead head where
  tag := named.unquoted
  directives directive held := by
    have stems := ready.directives directive held
    intro code inside
    rw [directiveSplices, List.mem_append] at inside
    rcases inside with inside | inside
    · split at inside
      · cases inside
      · next given =>
        rw [List.mem_singleton] at inside
        subst inside
        have valued : directive.value ≠ "" := by simpa using given
        cases slot : Head.isSlotName directive.rawName with
        | true =>
          refine unchecked _ (List.mem_append_right _ (List.mem_map_of_mem ?_))
          exact List.mem_filter.mpr ⟨held, by simp [slot, valued]⟩
        | false =>
          exact readsAlone_of_directive checked stems.held valued stems.named stems.noLoop slot
            stems.noListener
    · split at inside
      · next computed =>
        refine unchecked code ?_
        simp only [uncheckedCodes, List.mem_append, List.mem_flatMap, List.mem_filter]
        exact .inl (.inl (.inl (.inr ⟨directive, ⟨held, computed⟩, inside⟩)))
      · cases inside
  key code held := code_readsAlone checked filled (ready.key code held)
  ref item held := by
    obtain ⟨stems, plain⟩ := ready.ref item held
    exact attribute_sound checked filled stems fun computed => by simp [plain] at computed
  extensions entry held := extension_readsAlone checked filled (ready.extensions entry held)
  attributes item held := attribute_sound checked filled (ready.attributes item held) fun computed => by
    refine unchecked item.name ?_
    simp only [uncheckedCodes, List.mem_append, List.mem_map, List.mem_filter]
    exact .inl (.inl (.inl (.inl ⟨item, ⟨.inl held, computed⟩, rfl⟩)))
  props item held := attribute_sound checked filled (ready.props item held) fun computed => by
    refine unchecked item.name ?_
    simp only [uncheckedCodes, List.mem_append, List.mem_map, List.mem_filter]
    exact .inl (.inl (.inl (.inl ⟨item, ⟨.inr held, computed⟩, rfl⟩)))
  listeners := listeners
  nativeListeners := nativeListeners
  slotTarget code held := by
    refine unchecked code ?_
    simp only [uncheckedCodes, List.mem_append, Option.mem_toList]
    exact .inl (.inr held)
  spread code held := by
    obtain ⟨name, binds, given⟩ := ready.spread code held
    exact readsAlone_of_held checked filled given binds
  component code held := code_readsAlone checked filled (ready.component code held)
  outletName code held := code_readsAlone checked filled (ready.outletName code held)
  condition code held := by
    obtain ⟨given, visible⟩ := ready.condition code held
    refine readsAlone_of_condition checked (.inl rfl) given ?_
    rintro rfl
    exact absurd visible (by decide)
  source header held := by
    obtain ⟨value, given, parsed⟩ := ready.loop header held
    exact (loop_of_check checked given parsed held).1
  targets header held := by
    obtain ⟨value, given, parsed⟩ := ready.loop header held
    exact (loop_of_check checked given parsed held).2

end Head

/-! ## Trees -/

/-- What the check of a head leaves open. -/
structure Complements (head : Head) : Prop where
  filled : ∀ entry ∈ head.given, IsFilled entry
  unchecked : ∀ code ∈ uncheckedCodes head, readsAlone code = true
  listeners : ∀ group ∈ listenerGroups head.listeners, GroupReads group
  nativeListeners : ∀ group ∈ listenerGroups head.nativeListeners, GroupReads group

theorem SoundHead.ofRaw {head : Head} (raw : IsRaw head) (named : Markup.IsTagName head.tag) :
    SoundHead head where
  tag := named.unquoted
  directives _ held := by simp [raw.directives] at held
  key _ held := by simp [raw.key] at held
  ref _ held := by simp [raw.ref] at held
  extensions _ held := by simp [raw.extensions] at held
  attributes item held := by
    have plain := raw.attributes item held
    simp only [Attribute.isDynamic, Bool.or_eq_false_iff] at plain
    simp [SoundAttribute, attributeSplices, plain]
  props _ held := by simp [raw.props] at held
  listeners _ held := by simp [raw.listeners, listenerGroups] at held
  nativeListeners _ held := by simp [raw.nativeListeners, listenerGroups] at held
  slotTarget _ held := by simp [raw.slotTarget] at held
  spread _ held := by simp [raw.spread] at held
  component _ held := by simp [raw.component] at held
  outletName _ held := by simp [raw.outletName] at held
  condition _ held := by simp [raw.condition] at held
  source _ held := by simp [raw.loop] at held
  targets _ held := by simp [raw.loop] at held

mutual

theorem soundElement_of_raw (element : Element) (raw : RawElement element) : SoundElement element := by
  match element, raw with
  | ⟨head, children, branches⟩, ⟨rawHead, named, rawChildren, unbranched⟩ =>
    subst unbranched
    exact ⟨.ofRaw rawHead named, soundNodes_of_raw children rawChildren, trivial⟩

theorem soundNode_of_raw (node : Node) (raw : RawNode node) : SoundNode node := by
  match node, raw with
  | .element element, raw => exact soundElement_of_raw element raw
  | .text run, raw =>
    intro segment held
    rw [RawNode] at raw
    rw [raw] at held
    cases held
  | .comment comment, _ => trivial

theorem soundNodes_of_raw (nodes : List Node) (raw : RawNodes nodes) : SoundNodes nodes := by
  match nodes, raw with
  | [], _ => trivial
  | node :: rest, ⟨first, others⟩ => exact ⟨soundNode_of_raw node first, soundNodes_of_raw rest others⟩

end

theorem head_of_check {holds : Head → Prop} {element : Element}
    (plain : element.head.isVerbatim = false) (formed : FormedElement element)
    (checked : element.check = []) (every : element.EveryHead holds) :
    Ready element.head element.head ∧ element.head.check = [] ∧ holds element.head := by
  have ready := ((formedElement_plain element plain).mp formed).2.1
  obtain ⟨head, children, branches⟩ := element
  rw [Element.check, if_neg (by simpa using plain), List.append_eq_nil_iff,
    List.append_eq_nil_iff] at checked
  rw [Element.EveryHead] at every
  rcases every with verbatim | ⟨here, -⟩
  · rw [plain] at verbatim
    cases verbatim
  · exact ⟨ready, checked.1.1, here⟩

theorem run_sound {run : TextRun} (checked : run.check = []) :
    ∀ segment ∈ run.segments, SoundSegment segment := by
  rw [TextRun.check, List.map_eq_nil_iff, List.flatMap_eq_nil_iff] at checked
  intro segment held
  cases segment with
  | literal content => trivial
  | binding expression => exact readsAlone_of_expressionProblems (checked _ held)

/-- What the predicate has to say of a head that is checked. -/
def Completes (holds : Head → Prop) : Prop :=
  ∀ head, Ready head head → head.check = [] → holds head → Complements head

variable {holds : Head → Prop}

mutual

theorem soundElement_of_check (complements : Completes holds) (element : Element)
    (formed : FormedElement element) (checked : element.check = [])
    (every : element.EveryHead holds) : SoundElement element := by
  cases verbatim : element.head.isVerbatim with
  | true => exact soundElement_of_raw element ((formedElement_raw element verbatim).mp formed)
  | false =>
    obtain ⟨ready, checkedHead, here⟩ := head_of_check verbatim formed checked every
    have rest := complements element.head ready checkedHead here
    match element with
    | ⟨head, children, branches⟩ =>
      have plain : head.isVerbatim = false := verbatim
      obtain ⟨named, -, formedChildren, formedBranches⟩ :=
        (formedElement_plain ⟨head, children, branches⟩ verbatim).mp formed
      rw [Element.check, plain, if_neg (by simp), List.append_eq_nil_iff, List.append_eq_nil_iff]
        at checked
      rw [Element.EveryHead, plain] at every
      obtain impossible | ⟨-, everyChildren, everyBranches⟩ := every
      · cases impossible
      · exact ⟨soundHead_of_check ready checkedHead rest.filled rest.unchecked named rest.listeners
            rest.nativeListeners,
          soundNodes_of_check complements children formedChildren checked.1.2 everyChildren,
          soundBranches_of_check complements branches formedBranches checked.2 everyBranches⟩

theorem soundNode_of_check (complements : Completes holds) (node : Node)
    (formed : FormedNode node) (checked : node.check = []) (every : node.EveryHead holds) : SoundNode node := by
  match node with
  | .element element => exact soundElement_of_check complements element formed checked every
  | .text run => exact run_sound checked
  | .comment comment => trivial

theorem soundNodes_of_check (complements : Completes holds) (nodes : List Node)
    (formed : FormedNodes nodes) (checked : checkNodes nodes = [])
    (every : EveryHeadOfNodes holds nodes) : SoundNodes nodes := by
  match nodes with
  | [] => trivial
  | node :: rest =>
    rw [checkNodes, List.append_eq_nil_iff] at checked
    exact ⟨soundNode_of_check complements node formed.1 checked.1 every.1,
      soundNodes_of_check complements rest formed.2 checked.2 every.2⟩

theorem soundBranches_of_check (complements : Completes holds) (branches : List Branch)
    (formed : FormedBranches branches) (checked : checkBranches branches = [])
    (every : EveryHeadOfBranches holds branches) :
    SoundBranches branches := by
  match branches with
  | [] => trivial
  | ⟨condition, block⟩ :: rest =>
    obtain ⟨given, plain, formedBlock, formedRest⟩ := formed
    rw [checkBranches, List.append_eq_nil_iff] at checked
    refine ⟨fun code held => ?_, soundElement_of_check complements block formedBlock checked.1 every.1,
      soundBranches_of_check complements rest formedRest checked.2 every.2⟩
    obtain ⟨ready, checkedHead, here⟩ := head_of_check plain formedBlock checked.1 every.1
    have filled := (complements block.head ready checkedHead here).filled
    exact readsAlone_of_condition checkedHead (.inr rfl) (given code held)
      (filled_of_held filled (given code held) (.inr rfl))

end

end Templating.Rendering
