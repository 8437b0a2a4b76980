import Templating.Proofs.Evaluation.Tame
import Templating.Proofs.Translation.Heads
/-!
# Templates that capture tame code

What a template captures is tame where it calls no fragment and binds no name of
a helper.  Then its data objects and texts are tame as well.
-/
set_option autoImplicit false

namespace Templating.Evaluation

open Templating.Text Templating.Data Templating.Expression Templating.Template Templating.Rendering

/-! ## What is captured -/

def eventSplices (listeners : List Listener) : List String :=
  ((listenerGroups listeners).filter ListenerGroup.hasNameExpression).map ListenerGroup.event

def headSplices (head : Head) : List String :=
  (head.attributes ++ head.props ++ head.ref.toList).flatMap attributeSplices ++
    head.directives.flatMap directiveSplices ++
    eventSplices head.listeners ++ eventSplices head.nativeListeners ++
    head.extensions.map Prod.snd ++
    [head.key, head.condition, head.component, head.outletName, head.slotTarget,
      head.spread].flatMap Option.toList ++
    head.loop.toList.map Loop.source

def segmentSplices : Segment → List String
  | .literal _ => []
  | .binding expression => [expression]

def nodeSplices : Node → List String
  | .text run => run.segments.flatMap segmentSplices
  | _ => []

/-- The source of all expressions at one element: in its head, in its texts, and
in the conditions of its branches. -/
def elementSplices (element : Element) : List String :=
  headSplices element.head ++ element.children.flatMap nodeSplices ++
    element.branches.flatMap fun branch => branch.condition.toList

/-- No expression at the element calls a fragment or binds the name of a helper,
and neither does its loop. -/
structure CapturesTame (element : Element) : Prop where
  codes : ∀ code ∈ elementSplices element, isTame (captured code) = true
  targets : ∀ header ∈ element.head.loop, bindsFreely (targetsMeaning header) = true

instance : DecidablePred CapturesTame := fun element =>
  decidable_of_iff ((∀ code ∈ elementSplices element, isTame (captured code) = true) ∧
      ∀ header ∈ element.head.loop, bindsFreely (targetsMeaning header) = true)
    ⟨fun ⟨codes, targets⟩ => ⟨codes, targets⟩, fun tame => ⟨tame.codes, tame.targets⟩⟩

/-! ## Fields -/

theorem entriesTame_iff (entries : List (Key × Expr)) : entriesTame entries = true ↔
    ∀ entry ∈ entries, keyTame entry.1 = true ∧ isTame entry.2 = true := by
  induction entries with
  | nil => simp [entriesTame]
  | cons entry rest ih =>
    obtain ⟨key, value⟩ := entry
    simp [entriesTame, ih]

def AreTame (fields : List Field) : Prop :=
  ∀ entry ∈ fields, keyTame entry.1 = true ∧ isTame entry.2 = true

theorem AreTame.record {fields : List Field} (tame : AreTame fields) : isTame (.record fields) = true :=
  (entriesTame_iff fields).mpr tame

theorem AreTame.append {fields others : List Field} (first : AreTame fields) (second : AreTame others) :
    AreTame (fields ++ others) := List.forall_mem_append.mpr ⟨first, second⟩

theorem AreTame.nil : AreTame [] := fun _ held => by cases held

theorem AreTame.cons {name : String} {value : Expr} {fields : List Field} (tame : isTame value = true)
    (others : AreTame fields) : AreTame (namedField name value :: fields) :=
  List.forall_mem_cons.mpr ⟨⟨rfl, tame⟩, others⟩

theorem AreTame.unlessEmpty {α : Type} (name : String) {items : List α} {value : List α → Expr}
    (tame : isTame (value items) = true) : AreTame (Rendering.unlessEmpty name items value) := by
  unfold Rendering.unlessEmpty
  split
  · exact .nil
  · exact .cons tame .nil

theorem AreTame.optional (name : String) {code : Option String}
    (tame : ∀ given ∈ code, isTame (captured given) = true) : AreTame (optionalMeaning name code) := by
  cases code with
  | none => exact .nil
  | some given => exact .cons (tame given rfl) .nil

theorem helperCall_tame {name : String} (noFragment : name ≠ "_m") {arguments : List Expr}
    (tame : ∀ item ∈ arguments, isTame item = true) : isTame (helperCall name arguments) = true := by
  simp [helperCall, isTame, namesFragments, noFragment, (allTame_iff arguments).mpr tame]

theorem keyMeaning_tame {name : String} {isExpression : Bool}
    (tame : isExpression = true → isTame (captured name) = true) :
    keyTame (keyMeaning name isExpression) = true := by
  cases isExpression with
  | true => exact tame rfl
  | false => rfl

theorem attributes_tame {items : List Attribute}
    (tame : ∀ item ∈ items, ∀ code ∈ attributeSplices item, isTame (captured code) = true) :
    AreTame (items.map attributeMeaning) := by
  refine List.forall_mem_map.mpr fun item held => ?_
  have given := tame item held
  refine ⟨keyMeaning_tame fun named => given _ (by simp [attributeSplices, named]), ?_⟩
  simp only [attributeMeaning]
  split
  · next bound => exact given _ (by simp [attributeSplices, bound])
  · rfl

theorem directive_tame {directive : Directive}
    (tame : ∀ code ∈ directiveSplices directive, isTame (captured code) = true) :
    isTame (directiveMeaning directive) = true := by
  refine AreTame.record (((AreTame.cons rfl (.cons rfl .nil)).append ?_).append ?_ |>.append ?_)
  · split
    · exact .nil
    · next given => exact .cons (tame _ (by simp [directiveSplices, given])) (.cons rfl .nil)
  · refine List.forall_mem_map.mpr fun argument held => ⟨rfl, ?_⟩
    split
    · next named => exact tame _ (by simp [directiveSplices, named, Option.mem_toList.mp held])
    · rfl
  · split
    · exact .nil
    · refine .cons (AreTame.record ?_) .nil
      exact List.forall_mem_map.mpr fun _ _ => ⟨rfl, rfl⟩

/-! ## Heads -/

theorem listeners_tame {listeners : List Listener}
    (named : ∀ code ∈ eventSplices listeners, isTame (captured code) = true) :
    isTame (listenersMeaning listeners) = true := by
  have all : ∀ groups : List ListenerGroup,
      (∀ group ∈ groups, group.hasNameExpression = true → isTame (captured group.event) = true) →
      listenersTame (groups.map fun group =>
        (keyMeaning group.event group.hasNameExpression, trimmed group.source)) = true := by
    intro groups each
    induction groups with
    | nil => rfl
    | cons group rest ih =>
      obtain ⟨here, later⟩ := List.forall_mem_cons.mp each
      simp only [List.map_cons, listenersTame, keyMeaning_tame here, ih later, Bool.and_self]
  exact all _ fun group held computed => named _ (by
    rw [eventSplices]
    exact List.mem_map_of_mem (List.mem_filter.mpr ⟨held, computed⟩))

structure TameHead (head : Head) : Prop where
  attributes : ∀ item ∈ head.attributes, ∀ code ∈ attributeSplices item, isTame (captured code) = true
  props : ∀ item ∈ head.props, ∀ code ∈ attributeSplices item, isTame (captured code) = true
  ref : ∀ item ∈ head.ref, ∀ code ∈ attributeSplices item, isTame (captured code) = true
  directives : ∀ directive ∈ head.directives, ∀ code ∈ directiveSplices directive,
    isTame (captured code) = true
  listeners : ∀ code ∈ eventSplices head.listeners, isTame (captured code) = true
  nativeListeners : ∀ code ∈ eventSplices head.nativeListeners, isTame (captured code) = true
  extensions : ∀ entry ∈ head.extensions, isTame (captured entry.2) = true
  key : ∀ code ∈ head.key, isTame (captured code) = true
  condition : ∀ code ∈ head.condition, isTame (captured code) = true
  component : ∀ code ∈ head.component, isTame (captured code) = true
  outletName : ∀ code ∈ head.outletName, isTame (captured code) = true
  slotTarget : ∀ code ∈ head.slotTarget, isTame (captured code) = true
  spread : ∀ code ∈ head.spread, isTame (captured code) = true
  source : ∀ header ∈ head.loop, isTame (captured header.source) = true

theorem tameHead_of_splices {head : Head}
    (tame : ∀ code ∈ headSplices head, isTame (captured code) = true) : TameHead head := by
  simp only [headSplices, List.forall_mem_append, List.forall_mem_flatMap, List.forall_mem_map,
    List.forall_mem_cons, Option.mem_toList] at tame
  obtain ⟨⟨⟨⟨⟨⟨⟨⟨attributes, props⟩, ref⟩, directives⟩, listeners⟩, nativeListeners⟩, extensions⟩,
    key, condition, component, outletName, slotTarget, spread, -⟩, source⟩ := tame
  exact { attributes, props, ref, directives, listeners, nativeListeners, extensions, key, condition,
          component, outletName, slotTarget, spread, source }

section Head

variable {head : Head} (tame : TameHead head)

include tame

theorem TameHead.data (settings : Settings) (inLoop : Bool) :
    AreTame (dataMeaning settings inLoop head) := by
  have kept : isTame (.list ((keptDirectives settings head).map directiveMeaning)) = true := by
    refine (allTame_iff _).mpr (List.forall_mem_map.mpr fun directive held => ?_)
    exact directive_tame (tame.directives directive (List.mem_of_mem_filter held))
  have ref : AreTame (head.ref.toList.flatMap (refMeaning inLoop)) := by
    refine List.forall_mem_flatMap.mpr fun item held => AreTame.cons ?_ ?_
    · split
      · next bound =>
        exact tame.ref item (Option.mem_toList.mp held) _ (by simp [attributeSplices, bound])
      · rfl
    · split
      · exact .cons rfl .nil
      · exact .nil
  have extensions : AreTame (extensionsMeaning settings head) := by
    refine List.forall_mem_flatMap.mpr fun name _ => List.forall_mem_map.mpr fun code held => ?_
    exact ⟨rfl, tame.extensions (name, code) (find?_mem (Option.mem_toList.mp held))⟩
  have props : AreTame (propsMeaning settings head) := by
    refine .append (attributes_tame tame.props) (List.forall_mem_flatMap.mpr fun directive held =>
      List.forall_mem_map.mpr fun entry _ => ⟨rfl, ?_⟩)
    have shown : isTame (captured directive.value) = true := by
      by_cases empty : directive.value = ""
      · rw [empty]
        decide +kernel
      · exact tame.directives directive held _ (by simp [directiveSplices, empty])
    exact helperCall_tame (by decide) (List.forall_mem_singleton.mpr shown)
  have verbatim : AreTame (if head.isVerbatim then [namedField "pre" (booleanExpr true)] else []) := by
    split
    · exact .cons rfl .nil
    · exact .nil
  have tag : AreTame (if head.component.isSome then [namedField "tag" (textExpr head.tag)] else []) := by
    split
    · exact .cons rfl .nil
    · exact .nil
  unfold dataMeaning
  refine AreTame.append (AreTame.append (AreTame.append (AreTame.append (AreTame.append (AreTame.append
    (AreTame.append (AreTame.append (AreTame.append (AreTame.append ?_ ?_) ref) verbatim) tag) extensions)
    ?_) ?_) ?_) ?_) ?_
  · exact .unlessEmpty "directives" kept
  · exact .optional "key" tame.key
  · exact .unlessEmpty "attrs" (attributes_tame tame.attributes).record
  · exact .unlessEmpty "domProps" props.record
  · exact .unlessEmpty "on" (listeners_tame tame.listeners)
  · exact .unlessEmpty "nativeOn" (listeners_tame tame.nativeListeners)
  · exact .optional "slot" tame.slotTarget

theorem TameHead.dataObject (settings : Settings) (inLoop : Bool) :
    isTame (dataObject settings inLoop head) = true := by
  have object := (tame.data settings inLoop).record
  unfold Rendering.dataObject
  split
  · next spread given =>
    have spreadTame := tame.spread spread given
    refine helperCall_tame (by decide) ?_
    simp only [List.forall_mem_cons, object, spreadTame]
    exact ⟨trivial, rfl, trivial, rfl, fun _ none => by cases none⟩
  · exact object

theorem TameHead.outletProps : isTame (attributesMeaning (outletProps head)) = true := by
  refine (attributes_tame (List.forall_mem_map.mpr fun item held code given => ?_)).record
  refine tame.attributes item held code ?_
  simp only [attributeSplices] at given ⊢
  cases named : item.hasNameExpression <;> simpa [named] using given

end Head

/-! ## Texts -/

theorem run_tame {run : TextRun}
    (tame : ∀ code ∈ run.segments.flatMap segmentSplices, isTame (captured code) = true) :
    isTame (runMeaning run) = true := by
  have segment : ∀ item ∈ run.segments, isTame (segmentMeaning item) = true := by
    intro item held
    cases item with
    | literal content => rfl
    | binding expression =>
      refine helperCall_tame (by decide) (List.forall_mem_singleton.mpr (tame _ ?_))
      exact List.mem_flatMap.mpr ⟨_, held, List.mem_singleton_self _⟩
  refine helperCall_tame (by decide) (List.forall_mem_singleton.mpr ?_)
  split
  · rfl
  · cases given : run.segments with
    | nil => rfl
    | cons first others =>
      rw [given] at segment
      obtain ⟨here, later⟩ := List.forall_mem_cons.mp segment
      have sum : ∀ (items : List Segment) (start : Expr), isTame start = true →
          (∀ item ∈ items, isTame (segmentMeaning item) = true) →
          isTame ((items.map segmentMeaning).foldl (.binary .add) start) = true := by
        intro items
        induction items with
        | nil => exact fun _ given _ => given
        | cons item rest ih =>
          intro start given each
          obtain ⟨next, behind⟩ := List.forall_mem_cons.mp each
          exact ih _ (by simp only [isTame, given, next, Bool.and_self]) behind
      exact sum others _ here later

end Templating.Evaluation
