import Templating.Proofs.Template.Rules
/-!
# Spans of heads

A head keeps the spans of the start tag and of its attributes.  No rule makes up
spans: what a rule writes into a head and where it reports has been in the head
before, or belongs to the attribute that the rule is about.
-/
set_option autoImplicit false

namespace Templating.Template

open Templating.Text Templating.Data Templating.Markup

def Diagnostic.PointsInto (allowed : Span → Prop) (diagnostic : Diagnostic) : Prop :=
  ∀ span ∈ diagnostic.span, allowed span

theorem errorAt_pointsInto {allowed : Span → Prop} {span : Span} (fits : allowed span)
    (problem : Problem) : (Diagnostic.errorAt span problem).PointsInto allowed := by
  rintro _ ⟨⟩
  exact fits

theorem tipAt_pointsInto {allowed : Span → Prop} {span : Span} (fits : allowed span)
    (problem : Problem) : (Diagnostic.tipAt span problem).PointsInto allowed := by
  rintro _ ⟨⟩
  exact fits

namespace Head

/-- The tag stands at its place, and all spans of the head are such. -/
structure SpansIn (place : Span) (allowed : Span → Prop) (head : Head) : Prop where
  own : head.span = place
  fits : allowed place
  pending : ∀ item ∈ head.pending, allowed item.span
  attributes : ∀ item ∈ head.attributes, allowed item.span
  props : ∀ item ∈ head.props, allowed item.span
  listeners : ∀ item ∈ head.listeners, allowed item.span
  nativeListeners : ∀ item ∈ head.nativeListeners, allowed item.span
  directives : ∀ item ∈ head.directives, allowed item.span
  ref : ∀ item ∈ head.ref, allowed item.span

structure ResultIn (place : Span) (allowed : Span → Prop) (result : Head × List Diagnostic) : Prop where
  head : result.1.SpansIn place allowed
  reports : ∀ diagnostic ∈ result.2, diagnostic.PointsInto allowed

section Rules

variable {place : Span} {allowed : Span → Prop} {head rest : Head} {item : SourceAttribute}

theorem SpansIn.quiet (inside : head.SpansIn place allowed) : ResultIn place allowed (head, []) :=
  ⟨inside, List.forall_mem_nil _⟩

theorem SpansIn.reporting (inside : head.SpansIn place allowed) {condition : Prop} [Decidable condition]
    {diagnostic : Diagnostic} (points : diagnostic.PointsInto allowed) :
    ResultIn place allowed (head, if condition then [diagnostic] else []) := by
  refine ⟨inside, fun other held => ?_⟩
  simp only at held
  split at held
  · rw [List.mem_singleton.mp held]
    exact points
  · cases held

theorem SpansIn.ite {condition : Prop} [Decidable condition] {other : Head}
    (inside : head.SpansIn place allowed) (insideToo : other.SpansIn place allowed) :
    (if condition then head else other).SpansIn place allowed := by
  split
  · exact inside
  · exact insideToo

theorem SpansIn.withAttribute (inside : head.SpansIn place allowed) {written : Attribute}
    (fits : allowed written.span) :
    ({ head with attributes := head.attributes ++ [written] } : Head).SpansIn place allowed :=
  { inside with
    attributes := List.forall_mem_append.mpr ⟨inside.attributes, List.forall_mem_singleton.mpr fits⟩ }

theorem SpansIn.withProp (inside : head.SpansIn place allowed) {written : Attribute}
    (fits : allowed written.span) :
    ({ head with props := head.props ++ [written] } : Head).SpansIn place allowed :=
  { inside with
    props := List.forall_mem_append.mpr ⟨inside.props, List.forall_mem_singleton.mpr fits⟩ }

theorem SpansIn.withListener (inside : head.SpansIn place allowed) {listener : Listener}
    (fits : allowed listener.span) :
    ({ head with listeners := head.listeners ++ [listener] } : Head).SpansIn place allowed :=
  { inside with
    listeners := List.forall_mem_append.mpr ⟨inside.listeners, List.forall_mem_singleton.mpr fits⟩ }

theorem SpansIn.withNativeListener (inside : head.SpansIn place allowed) {listener : Listener}
    (fits : allowed listener.span) :
    ({ head with nativeListeners := head.nativeListeners ++ [listener] } : Head).SpansIn place allowed :=
  { inside with
    nativeListeners :=
      List.forall_mem_append.mpr ⟨inside.nativeListeners, List.forall_mem_singleton.mpr fits⟩ }

theorem SpansIn.withDirective (inside : head.SpansIn place allowed) {directive : Directive}
    (fits : allowed directive.span) :
    ({ head with directives := head.directives ++ [directive] } : Head).SpansIn place allowed :=
  { inside with
    directives := List.forall_mem_append.mpr ⟨inside.directives, List.forall_mem_singleton.mpr fits⟩ }

theorem takeFirst_spansIn {accepts : SourceAttribute → Bool} (inside : head.SpansIn place allowed)
    (taken : head.takeFirst? accepts = some (item, rest)) : rest.SpansIn place allowed ∧ allowed item.span := by
  obtain ⟨found, first, same⟩ := Option.map_eq_some_iff.mp taken
  cases same
  refine ⟨{ inside with pending := fun other held => ?_ }, ?_⟩
  · exact inside.pending other (List.mem_of_mem_eraseP held)
  · exact inside.pending item (List.mem_of_find?_eq_some first)

theorem takeExpression_spansIn {name code : String} {span : Span} (inside : head.SpansIn place allowed)
    (taken : head.takeExpression? name = some (code, span, rest)) :
    rest.SpansIn place allowed ∧ allowed span := by
  unfold takeExpression? at taken
  split at taken
  · next bound =>
    cases taken
    exact takeFirst_spansIn inside bound
  · obtain ⟨⟨item, left⟩, given, same⟩ := Option.map_eq_some_iff.mp taken
    cases same
    exact takeFirst_spansIn inside given

theorem takeLoop_spansIn (inside : head.SpansIn place allowed) : ResultIn place allowed head.takeLoop := by
  unfold takeLoop
  split
  · exact inside.quiet
  · next taken =>
    obtain ⟨kept, fits⟩ := takeFirst_spansIn inside taken
    simp only
    split
    · exact SpansIn.quiet { kept with }
    · exact ⟨kept, List.forall_mem_singleton.mpr (errorAt_pointsInto fits _)⟩

theorem takeCondition_spansIn (inside : head.SpansIn place allowed) :
    ResultIn place allowed head.takeCondition := by
  unfold takeCondition
  split
  · next taken =>
    obtain ⟨kept, fits⟩ := takeFirst_spansIn inside taken
    simp only
    split
    · exact kept.quiet
    · refine SpansIn.reporting ?_ (tipAt_pointsInto fits _)
      exact { kept with }
  · split
    · next taken => exact SpansIn.quiet { (takeFirst_spansIn inside taken).1 with }
    · split
      · next taken => exact SpansIn.quiet { (takeFirst_spansIn inside taken).1 with }
      · exact inside.quiet

theorem takeOnce_spansIn (inside : head.SpansIn place allowed) : head.takeOnce.SpansIn place allowed := by
  unfold takeOnce
  split
  · next taken => exact { (takeFirst_spansIn inside taken).1 with }
  · exact inside

theorem takeStructure_spansIn (inside : head.SpansIn place allowed) :
    ResultIn place allowed head.takeStructure := by
  have looped := takeLoop_spansIn inside
  have conditioned := takeCondition_spansIn looped.head
  exact ⟨takeOnce_spansIn conditioned.head,
    List.forall_mem_append.mpr ⟨looped.reports, conditioned.reports⟩⟩

theorem takeVerbatim_spansIn (inside : head.SpansIn place allowed) :
    head.takeVerbatim.SpansIn place allowed where
  own := inside.own
  fits := inside.fits
  pending := List.forall_mem_nil _
  attributes := by
    intro written held
    rcases List.mem_append.mp held with held | held
    · exact inside.attributes written held
    · obtain ⟨source, given, rfl⟩ := List.mem_map.mp held
      exact inside.pending source given
  props := inside.props
  listeners := inside.listeners
  nativeListeners := inside.nativeListeners
  directives := inside.directives
  ref := inside.ref

/-! ## When the element closes -/

theorem takeKey_spansIn (inside : head.SpansIn place allowed) : ResultIn place allowed head.takeKey := by
  unfold takeKey
  split
  · exact inside.quiet
  · next taken =>
    obtain ⟨kept, fits⟩ := takeExpression_spansIn inside taken
    split
    · exact ⟨kept, List.forall_mem_singleton.mpr (errorAt_pointsInto fits _)⟩
    · exact SpansIn.quiet { kept with }

theorem takeRef_spansIn (inside : head.SpansIn place allowed) : head.takeRef.SpansIn place allowed := by
  have written {rest : Head} {item : Attribute} (kept : rest.SpansIn place allowed)
      (fits : allowed item.span) : ({ rest with ref := some item } : Head).SpansIn place allowed := by
    refine { kept with ref := ?_ }
    rintro _ ⟨⟩
    exact fits
  unfold takeRef
  split
  · next taken =>
    obtain ⟨kept, fits⟩ := takeFirst_spansIn inside taken
    exact written kept fits
  · split
    · next taken =>
      obtain ⟨kept, fits⟩ := takeFirst_spansIn inside taken
      exact written kept fits
    · exact inside

theorem takeSlotTarget_spansIn (inside : head.SpansIn place allowed) :
    ResultIn place allowed head.takeSlotTarget := by
  unfold takeSlotTarget
  split
  · next taken => exact SpansIn.quiet { (takeExpression_spansIn inside taken).1 with }
  · split
    · exact inside.quiet
    · next item rest taken =>
      obtain ⟨kept, fits⟩ := takeFirst_spansIn inside taken
      refine ⟨{ kept with }, ?_⟩
      simp only
      split
      · exact List.forall_mem_nil _
      · exact List.forall_mem_singleton.mpr (errorAt_pointsInto fits _)

theorem takeOutlet_spansIn (inside : head.SpansIn place allowed) : ResultIn place allowed head.takeOutlet := by
  unfold takeOutlet
  split
  · refine SpansIn.reporting ?_ (errorAt_pointsInto (inside.own ▸ inside.fits) _)
    split
    · next taken => exact { (takeExpression_spansIn inside taken).1 with }
    · exact inside
  · exact inside.quiet

theorem takeComponent_spansIn (inside : head.SpansIn place allowed) :
    head.takeComponent.SpansIn place allowed := by
  unfold takeComponent
  split
  · next taken => exact { (takeExpression_spansIn inside taken).1 with }
  · exact inside

theorem markEvent_span (listener : Listener) (mark : String × String) :
    (markEvent listener mark).span = listener.span := by
  unfold markEvent
  split <;> rfl

theorem renameClick_span (listener : Listener) : (renameClick listener).span = listener.span := by
  unfold renameClick
  split
  · rfl
  · split <;> rfl

theorem eventMarks_span (listener : Listener) :
    (eventMarks.foldl markEvent listener).span = listener.span := by
  simp only [eventMarks, List.foldl_cons, List.foldl_nil, markEvent_span]

theorem addListener_spansIn (inside : head.SpansIn place allowed) {listener : Listener}
    (fits : allowed listener.span) : ResultIn place allowed (head.addListener listener) := by
  unfold addListener
  simp only
  have named : allowed (if listener.hasNameExpression then listener
      else eventMarks.foldl markEvent (renameClick listener)).span := by
    split
    · exact fits
    · rw [eventMarks_span, renameClick_span]
      exact fits
  generalize (if listener.hasNameExpression then listener
    else eventMarks.foldl markEvent (renameClick listener)) = final at named ⊢
  split
  · refine SpansIn.reporting ?_ (tipAt_pointsInto fits _)
    exact inside.withNativeListener named
  · refine SpansIn.reporting ?_ (tipAt_pointsInto fits _)
    exact inside.withListener named

theorem addBinding_spansIn (inside : head.SpansIn place allowed) (platform : Platform) (given : String)
    (modifiers : List String) (value : String) {span : Span} (fits : allowed span) :
    ResultIn place allowed (head.addBinding platform given modifiers value span) := by
  unfold addBinding
  refine SpansIn.reporting ?_ (errorAt_pointsInto fits _)
  have synced : (if !(AttributeName.argument given).2 && modifiers.contains "sync" then
      { head with
        listeners := head.listeners ++
          [⟨"update:" ++ AttributeName.camelize (AttributeName.argument given).1, value ++ "=$event", [],
            false, span⟩] } else head).SpansIn place allowed := .ite (inside.withListener fits) inside
  refine .ite ?_ ?_
  · exact synced.withProp fits
  · exact synced.withAttribute fits

theorem addDirective_spansIn (inside : head.SpansIn place allowed) (name rawName : String)
    (modifiers : List String) (value : String) {span : Span} (fits : allowed span) :
    (head.addDirective name rawName modifiers value span).SpansIn place allowed := by
  unfold addDirective
  refine .ite ?_ ?_
  · exact { inside with }
  · exact inside.withDirective fits

theorem addAttribute_spansIn (settings : Settings) (inside : head.SpansIn place allowed)
    (fits : allowed item.span) : ResultIn place allowed (head.addAttribute settings item) := by
  unfold addAttribute
  simp only
  split
  · split
    · exact addBinding_spansIn inside _ _ _ _ fits
    · split
      · exact addListener_spansIn inside fits
      · split
        · exact (addDirective_spansIn inside _ _ _ _ fits).quiet
        · exact ⟨inside, List.forall_mem_singleton.mpr (errorAt_pointsInto fits _)⟩
  · refine SpansIn.reporting ?_ (errorAt_pointsInto fits _)
    exact inside.withAttribute fits

theorem addAttributes_spansIn (settings : Settings) {items : List SourceAttribute}
    (inside : head.SpansIn place allowed) (fit : ∀ item ∈ items, allowed item.span) :
    ResultIn place allowed (addAttributes settings items head) := by
  induction items generalizing head with
  | nil => exact inside.quiet
  | cons item rest ih =>
    obtain ⟨first, others⟩ := List.forall_mem_cons.mp fit
    have here := addAttribute_spansIn settings inside first
    have behind := ih here.head others
    exact ⟨behind.head, List.forall_mem_append.mpr ⟨here.reports, behind.reports⟩⟩

end Rules

end Head

/-- Given a head with such spans, the extension writes no others and points to no
others, and leaves the tag at its place. -/
def Extension.StaysIn (place : Span) (allowed : Span → Prop) (extension : Extension) : Prop :=
  ∀ (delimiters : Delimiters) (head : Head),
    head.SpansIn place allowed → Head.ResultIn place allowed (extension.transform delimiters head)

section Completion

variable {place : Span} {allowed : Span → Prop} {head : Head}

theorem applyExtensions_spansIn {extensions : List Extension}
    (keep : ∀ extension ∈ extensions, extension.StaysIn place allowed) (delimiters : Delimiters)
    (inside : head.SpansIn place allowed) :
    Head.ResultIn place allowed (head.applyExtensions delimiters extensions) := by
  induction extensions generalizing head with
  | nil => exact inside.quiet
  | cons extension others ih =>
    have here := keep extension List.mem_cons_self delimiters head inside
    have behind := ih (fun other held => keep other (List.mem_cons_of_mem _ held)) here.head
    exact ⟨behind.head, List.forall_mem_append.mpr ⟨here.reports, behind.reports⟩⟩

theorem complete_spansIn {settings : Settings}
    (keep : ∀ extension ∈ settings.extensions, extension.StaysIn place allowed)
    (inside : head.SpansIn place allowed) :
    Head.ResultIn place allowed (head.complete settings) := by
  have keyed := Head.takeKey_spansIn inside
  have targeted := Head.takeSlotTarget_spansIn (Head.takeRef_spansIn keyed.head)
  have outlet := Head.takeOutlet_spansIn targeted.head
  have extended := applyExtensions_spansIn keep settings.delimiters
    (Head.takeComponent_spansIn outlet.head)
  have emptied : ({ (head.takeKey.1.takeRef.takeSlotTarget.1.takeOutlet.1.takeComponent.applyExtensions
      settings.delimiters settings.extensions).1 with pending := [] } : Head).SpansIn place allowed :=
    { extended.head with pending := List.forall_mem_nil _ }
  have final := Head.addAttributes_spansIn settings emptied extended.head.pending
  unfold Head.complete
  refine ⟨final.head, ?_⟩
  simp only [List.forall_mem_append]
  exact ⟨⟨⟨⟨keyed.reports, targeted.reports⟩, outlet.reports⟩, extended.reports⟩, final.reports⟩

theorem Head.new_spansIn {span : Span} {items : List SourceAttribute} (fits : allowed span)
    (fit : ∀ item ∈ items, allowed item.span) (id : Nat) (tag : String) :
    (Head.new id tag items span).SpansIn span allowed where
  own := rfl
  fits := fits
  pending := fit
  attributes := List.forall_mem_nil _
  props := List.forall_mem_nil _
  listeners := List.forall_mem_nil _
  nativeListeners := List.forall_mem_nil _
  directives := List.forall_mem_nil _
  ref := fun _ held => nomatch held

theorem freshHead_spansIn {span : Span} {items : List SourceAttribute} (fits : allowed span)
    (fit : ∀ item ∈ items, allowed item.span) (settings : Settings) (tag : String) (outside : Builder) :
    (outside.freshHead settings tag items span).SpansIn span allowed :=
  { Head.new_spansIn fits fit outside.nextId tag with }

theorem enter_spansIn (outside : Builder) (inside : head.SpansIn place allowed) :
    (outside.enter head).1.SpansIn place allowed ∧
      ∀ diagnostic ∈ (outside.enter head).2.2, diagnostic.PointsInto allowed := by
  have verbatim {given : Head} (fits : given.SpansIn place allowed) :
      ({ given with isVerbatim := true } : Head).takeVerbatim.SpansIn place allowed :=
    Head.takeVerbatim_spansIn { fits with }
  unfold Builder.enter Builder.isVerbatim
  cases outside.verbatimRoot with
  | some id => exact ⟨verbatim inside, List.forall_mem_nil _⟩
  | none =>
    simp only [Option.isSome_none, Bool.false_eq_true, if_false]
    cases taken : head.take? "v-pre" with
    | some found =>
      obtain ⟨item, rest⟩ := found
      exact ⟨verbatim (Head.takeFirst_spansIn inside taken).1, List.forall_mem_nil _⟩
    | none =>
      have structured := Head.takeStructure_spansIn inside
      exact ⟨structured.head, structured.reports⟩

theorem distinctAttributes_spansIn (tag : String) (seen : List String) {items : List SourceAttribute}
    (fit : ∀ item ∈ items, allowed item.span) :
    (∀ item ∈ (Builder.distinctAttributes tag seen items).1, allowed item.span) ∧
      ∀ diagnostic ∈ (Builder.distinctAttributes tag seen items).2, diagnostic.PointsInto allowed := by
  induction items generalizing seen with
  | nil => exact ⟨List.forall_mem_nil _, List.forall_mem_nil _⟩
  | cons item rest ih =>
    obtain ⟨first, others⟩ := List.forall_mem_cons.mp fit
    unfold Builder.distinctAttributes
    split
    · obtain ⟨kept, reports⟩ := ih seen others
      exact ⟨kept, List.forall_mem_cons.mpr ⟨errorAt_pointsInto first _, reports⟩⟩
    · obtain ⟨kept, reports⟩ := ih (item.name :: seen) others
      exact ⟨List.forall_mem_cons.mpr ⟨first, kept⟩, reports⟩

theorem rootDiagnostics_pointInto (fits : allowed head.span) :
    ∀ diagnostic ∈ rootDiagnostics head, diagnostic.PointsInto allowed := by
  unfold rootDiagnostics
  refine List.forall_mem_append.mpr ⟨?_, ?_⟩
  · split
    · exact List.forall_mem_singleton.mpr (errorAt_pointsInto fits _)
    · exact List.forall_mem_nil _
  · split
    · exact List.forall_mem_singleton.mpr (errorAt_pointsInto fits _)
    · exact List.forall_mem_nil _

end Completion

theorem takeBound_staysIn (name : String) (boundCode : String → String) {base : Head}
    {diagnostics : List Diagnostic} {place : Span} {allowed : Span → Prop}
    (result : Head.ResultIn place allowed (base, diagnostics)) :
    Head.ResultIn place allowed (match base.takeBinding? name with
      | none => (base, diagnostics)
      | some (item, rest) =>
        ({ rest with
            extensions := Dictionary.insert name (boundCode (item.value.getD "")) rest.extensions },
          diagnostics)) := by
  split
  · exact result
  · next taken =>
    exact ⟨{ (Head.takeFirst_spansIn result.head taken).1 with }, result.reports⟩

theorem takeBoth_staysIn (name staticKey : String) (staticCode boundCode : String → String)
    (delimiters : Delimiters) {head : Head} {place : Span} {allowed : Span → Prop}
    (inside : head.SpansIn place allowed) :
    Head.ResultIn place allowed (Web.takeBoth name staticKey staticCode boundCode delimiters head) := by
  unfold Web.takeBoth
  apply takeBound_staysIn
  cases taken : head.take? name with
  | none => exact inside.quiet
  | some found =>
    obtain ⟨item, rest⟩ := found
    obtain ⟨kept, fits⟩ := Head.takeFirst_spansIn inside taken
    refine Head.SpansIn.reporting ?_ (errorAt_pointsInto fits _)
    exact { kept with }

end Templating.Template
