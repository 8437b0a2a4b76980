import Templating.Proofs.Data.Dictionary
import Templating.Proofs.Template.Names
import Templating.Template.Web
/-!
# Where the parts of a head come from

Every part of a head that holds source stems from one attribute of its start
tag: its value, a literal made of it, or an argument inside its name.  The rules
on attributes keep this so, one after another.
-/
set_option autoImplicit false

namespace Templating.Template

open Templating.Text Templating.Data Templating.Markup

abbrev Given := Dictionary (Option String)

/-- The attribute is given with that value, where no value is an empty one. -/
def Given.holds (given : Given) (name value : String) : Prop :=
  ∃ held, (name, held) ∈ given ∧ value = held.getD ""

/-- Code that is a literal or the value of a binding. -/
inductive CodeFrom (given : Given) (code : String) : Prop where
  | literal (content : String) (same : code = Literal.encode content)
  | binding (name : String) (binds : isBindingName name = true) (held : given.holds name code)

/-- The outlet that a slot attribute names, in its value or between brackets in
its name. -/
inductive TargetFrom (given : Given) (code : String) : Prop where
  | code (stems : CodeFrom given code)
  | inName (name : String) (value : String) (held : given.holds name value)
      (bracketed : '[' ∈ name.toList)

inductive AttributeFrom (given : Given) (item : Attribute) : Prop where
  | literal (plain : item.isDynamic = false)
  | binding (name : String) (binds : isBindingName name = true) (held : given.holds name item.value)
      (bound : item.isBound = true)
      (bracketed : item.hasNameExpression = true → '[' ∈ name.toList)

inductive ExtensionFrom (given : Given) (entry : String × String) : Prop where
  | classes (value : String) (same : entry = ("staticClass", Web.classCode value))
  | styles (value : String) (same : entry = ("staticStyle", Web.styleCode value))
  | bound (name value : String) (binds : isBindingName name = true) (held : given.holds name value)
      (same : entry = ("class", value))
  | grouped (name value : String) (binds : isBindingName name = true) (held : given.holds name value)
      (same : entry = ("style", "(" ++ value ++ ")"))

structure DirectiveFrom (given : Given) (directive : Directive) : Prop where
  held : given.holds directive.rawName directive.value
  named : AttributeName.isDirective directive.rawName = true
  noLoop : directive.rawName ≠ "v-for"
  noListener : isListenerName directive.rawName = false
  bracketed : directive.hasArgumentExpression = true → '[' ∈ directive.rawName.toList

inductive ListenerFrom (given : Given) (listener : Listener) : Prop where
  | event (name : String) (listens : isListenerName name = true)
      (held : given.holds name listener.source)
      (bracketed : listener.hasNameExpression = true → '[' ∈ name.toList)
  | sync (name value : String) (binds : isBindingName name = true) (held : given.holds name value)
      (same : listener.source = value ++ "=$event") (plain : listener.hasNameExpression = false)

/-- All parts of the head stem from the attributes of `start`, and its place in
the tree is the same. -/
structure Provenance (start head : Head) : Prop where
  same : head.given = start.given
  id : head.id = start.id
  tag : head.tag = start.tag
  isVerbatim : head.isVerbatim = start.isVerbatim
  names : (head.pending.map SourceAttribute.name).Nodup
  pending : ∀ item ∈ head.pending, (item.name, item.value) ∈ start.given
  attributes : ∀ item ∈ head.attributes, AttributeFrom start.given item
  props : ∀ item ∈ head.props, AttributeFrom start.given item
  listeners : ∀ listener ∈ head.listeners, ListenerFrom start.given listener
  nativeListeners : ∀ listener ∈ head.nativeListeners, ListenerFrom start.given listener
  directives : ∀ directive ∈ head.directives, DirectiveFrom start.given directive
  key : ∀ code ∈ head.key, CodeFrom start.given code
  ref : ∀ item ∈ head.ref, AttributeFrom start.given item ∧ item.hasNameExpression = false
  condition : ∀ code ∈ head.condition, Given.holds start.given "v-if" code ∧ allBlank code = false
  branchCondition : ∀ code ∈ head.branchCondition, Given.holds start.given "v-else-if" code
  loop : ∀ header ∈ head.loop, ∃ value, Given.holds start.given "v-for" value ∧ Loop.parse? value = some header
  component : ∀ code ∈ head.component, CodeFrom start.given code
  outletName : ∀ code ∈ head.outletName, CodeFrom start.given code
  slotTarget : ∀ code ∈ head.slotTarget, TargetFrom start.given code
  spread : ∀ code ∈ head.spread, ∃ name, isBindingName name = true ∧ Given.holds start.given name code
  extensions : ∀ entry ∈ head.extensions, ExtensionFrom start.given entry

/-! ## A new head -/

theorem Provenance.new {items : List SourceAttribute} (id : Nat) (tag : String) (span : Span)
    (names : (items.map SourceAttribute.name).Nodup) :
    Provenance (Head.new id tag items span) (Head.new id tag items span) where
  same := rfl
  id := rfl
  tag := rfl
  isVerbatim := rfl
  names := names
  pending item held := Dictionary.mem_ofPairs (by simpa [Function.comp_def] using names)
    (List.mem_map_of_mem held)
  attributes _ held := by cases held
  props _ held := by cases held
  listeners _ held := by cases held
  nativeListeners _ held := by cases held
  directives _ held := by cases held
  key _ held := by cases held
  ref _ held := by cases held
  condition _ held := by cases held
  branchCondition _ held := by cases held
  loop _ held := by cases held
  component _ held := by cases held
  outletName _ held := by cases held
  slotTarget _ held := by cases held
  spread _ held := by cases held
  extensions _ held := by cases held

/-! ## Taking an attribute -/

theorem Provenance.takeFirst {start head : Head} (stems : Provenance start head)
    {accepts : SourceAttribute → Bool} {item : SourceAttribute} {rest : Head}
    (taken : head.takeFirst? accepts = some (item, rest)) :
    Provenance start rest ∧ accepts item = true ∧ Given.holds start.given item.name (item.value.getD "") ∧
      rest = { head with pending := head.pending.eraseP accepts } := by
  simp only [Head.takeFirst?, Option.map_eq_some_iff, Prod.mk.injEq] at taken
  obtain ⟨found, isFound, rfl, rfl⟩ := taken
  have held := List.mem_of_find?_eq_some isFound
  refine ⟨{ stems with names := ?_, pending := ?_ }, List.find?_some isFound,
    ⟨found.value, stems.pending found held, rfl⟩, rfl⟩
  · exact (List.eraseP_sublist.map SourceAttribute.name).nodup stems.names
  · exact fun item inside => stems.pending item (List.eraseP_sublist.subset inside)

theorem take_name {head : Head} {name : String} {item : SourceAttribute} {rest : Head}
    (taken : head.take? name = some (item, rest)) : item.name = name := by
  simp only [Head.take?, Head.takeFirst?, Option.map_eq_some_iff, Prod.mk.injEq] at taken
  obtain ⟨found, isFound, rfl, -⟩ := taken
  simpa using List.find?_some isFound

theorem takeBinding_binds {head : Head} {name : String} {item : SourceAttribute} {rest : Head}
    (taken : head.takeBinding? name = some (item, rest)) : isBindingName item.name = true := by
  simp only [Head.takeBinding?, Head.takeFirst?, Option.map_eq_some_iff, Prod.mk.injEq] at taken
  obtain ⟨found, isFound, rfl, -⟩ := taken
  have accepted := List.find?_some isFound
  simp only [Bool.or_eq_true, beq_iff_eq] at accepted
  rcases accepted with same | same
  · have lead : (AttributeName.after? ":" found.name).isSome = true := by
      rw [after_isSome_iff, same]
      exact ⟨name.toList, by simp⟩
    simp [isBindingName, lead]
  · have lead : (AttributeName.after? "v-bind:" found.name).isSome = true := by
      rw [after_isSome_iff, same]
      exact ⟨name.toList, by simp⟩
    simp [isBindingName, lead]

theorem name_ne_of_mem_eraseP {name : String} {items : List SourceAttribute}
    (names : (items.map SourceAttribute.name).Nodup) :
    ∀ item ∈ items.eraseP (fun item => item.name == name), item.name ≠ name := by
  induction items with
  | nil => simp
  | cons first others ih =>
    rw [List.map_cons, List.nodup_cons] at names
    obtain ⟨fresh, distinct⟩ := names
    intro item held
    by_cases same : first.name = name
    · rw [List.eraseP_cons_of_pos (by simp [same])] at held
      rintro rfl
      exact fresh (same ▸ List.mem_map_of_mem held)
    · rw [List.eraseP_cons_of_neg (by simp [same])] at held
      rcases List.mem_cons.mp held with rfl | held
      · exact same
      · exact ih distinct item held

/-- No loop is left among the pending attributes. -/
structure Ready (start head : Head) : Prop extends Provenance start head where
  noLoop : ∀ item ∈ head.pending, item.name ≠ "v-for"

section Ready

variable {start head : Head}

theorem Ready.takeFirst (ready : Ready start head) {accepts : SourceAttribute → Bool}
    {item : SourceAttribute} {rest : Head} (taken : head.takeFirst? accepts = some (item, rest)) :
    Ready start rest ∧ Given.holds start.given item.name (item.value.getD "") := by
  obtain ⟨stems, -, held, shape⟩ := ready.toProvenance.takeFirst taken
  refine ⟨{ stems with noLoop := fun other inside => ready.noLoop other ?_ }, held⟩
  rw [shape] at inside
  exact List.eraseP_sublist.subset inside

theorem Ready.take {name : String} (ready : Ready start head) {item : SourceAttribute} {rest : Head}
    (taken : head.take? name = some (item, rest)) :
    Ready start rest ∧ Given.holds start.given name (item.value.getD "") := by
  obtain ⟨readyRest, held⟩ := ready.takeFirst taken
  exact ⟨readyRest, take_name taken ▸ held⟩

theorem Ready.takeExpression (ready : Ready start head) {name code : String} {span : Span}
    {rest : Head} (taken : head.takeExpression? name = some (code, span, rest)) :
    Ready start rest ∧ CodeFrom start.given code := by
  unfold Head.takeExpression? at taken
  split at taken
  · next item behind bound =>
    simp only [Option.some.injEq, Prod.mk.injEq] at taken
    obtain ⟨rfl, -, rfl⟩ := taken
    obtain ⟨readyRest, held⟩ := ready.takeFirst bound
    exact ⟨readyRest, .binding item.name (takeBinding_binds bound) held⟩
  · simp only [Option.map_eq_some_iff, Prod.mk.injEq] at taken
    obtain ⟨⟨item, behind⟩, found, rfl, -, rfl⟩ := taken
    exact ⟨(ready.take found).1, .literal _ rfl⟩

/-! ## Structure -/

theorem Provenance.takeLoop (stems : Provenance start head) :
    Ready start head.takeLoop.1 := by
  unfold Head.takeLoop
  split
  · next none =>
    refine { stems with noLoop := fun item held same => ?_ }
    simp only [Head.take?, Head.takeFirst?, Option.map_eq_none_iff, List.find?_eq_none] at none
    exact none item held (by simp [same])
  · next item rest taken =>
    obtain ⟨stemsRest, -, held, shape⟩ := stems.takeFirst taken
    have named := take_name taken
    have noLoop : ∀ other ∈ rest.pending, other.name ≠ "v-for" := by
      rw [shape]
      exact name_ne_of_mem_eraseP stems.names
    cases parsed : Loop.parse? (item.value.getD "") with
    | some header =>
      simp only [parsed]
      refine { stemsRest with noLoop, loop := ?_ }
      rintro other ⟨⟩
      exact ⟨_, named ▸ held, parsed⟩
    | none =>
      simp only [parsed]
      exact { stemsRest with noLoop }

theorem Ready.takeCondition (ready : Ready start head) : Ready start head.takeCondition.1 := by
  unfold Head.takeCondition
  split
  · next item rest taken =>
    obtain ⟨readyRest, held⟩ := ready.take taken
    simp only
    split
    · exact readyRest
    · next visible =>
      refine { readyRest with condition := ?_ }
      rintro code ⟨⟩
      exact ⟨held, by simpa using visible⟩
  · split
    · next item rest taken => exact { (ready.take taken).1 with }
    · split
      · next item rest taken =>
        obtain ⟨readyRest, held⟩ := ready.take taken
        refine { readyRest with branchCondition := ?_ }
        rintro code ⟨⟩
        exact held
      · exact ready

theorem Ready.takeOnce (ready : Ready start head) : Ready start head.takeOnce := by
  unfold Head.takeOnce
  split
  · next item rest taken => exact { (ready.take taken).1 with }
  · exact ready

theorem Provenance.takeStructure (stems : Provenance start head) :
    Ready start head.takeStructure.1 :=
  stems.takeLoop.takeCondition.takeOnce

/-! ## Parts taken when the element closes -/

theorem Ready.takeKey (ready : Ready start head) : Ready start head.takeKey.1 := by
  unfold Head.takeKey
  split
  · exact ready
  · next key span rest taken =>
    obtain ⟨readyRest, code⟩ := ready.takeExpression taken
    split
    · exact readyRest
    · refine { readyRest with key := ?_ }
      rintro other ⟨⟩
      exact code

theorem Ready.takeRef (ready : Ready start head) : Ready start head.takeRef := by
  unfold Head.takeRef
  split
  · next item rest taken =>
    obtain ⟨readyRest, held⟩ := ready.takeFirst taken
    refine { readyRest with ref := ?_ }
    rintro other ⟨⟩
    exact ⟨.binding item.name (takeBinding_binds taken) held rfl (fun named => by cases named), rfl⟩
  · split
    · next item rest taken =>
      refine { (ready.take taken).1 with ref := ?_ }
      rintro other ⟨⟩
      exact ⟨.literal rfl, rfl⟩
    · exact ready

theorem slotExpression_from {name value : String} (held : Given.holds start.given name value) :
    TargetFrom start.given (Head.slotExpression name) := by
  unfold Head.slotExpression
  simp only
  generalize givenEq : ((AttributeName.after? "#" (AttributeName.splitModifiers name).1).orElse fun _ =>
    AttributeName.after? "v-slot:" (AttributeName.splitModifiers name).1).getD "default" = argument
  cases isExpression : (AttributeName.argument argument).2 with
  | false => exact .code (.literal (AttributeName.argument argument).1 rfl)
  | true =>
    refine .inName name value held ?_
    have inside := bracket_mem_of_argument isExpression
    cases short : AttributeName.after? "#" (AttributeName.splitModifiers name).1 with
    | some rest =>
      rw [short, Option.orElse_some, Option.getD_some] at givenEq
      exact mem_of_after_splitModifiers short (givenEq ▸ inside)
    | none =>
      cases long : AttributeName.after? "v-slot:" (AttributeName.splitModifiers name).1 with
      | some rest =>
        rw [short, long, Option.orElse_none, Option.getD_some] at givenEq
        exact mem_of_after_splitModifiers long (givenEq ▸ inside)
      | none =>
        rw [short, long, Option.orElse_none, Option.getD_none] at givenEq
        rw [← givenEq] at inside
        exact absurd inside (by decide)

theorem Ready.takeSlotTarget (ready : Ready start head) : Ready start head.takeSlotTarget.1 := by
  unfold Head.takeSlotTarget
  split
  · next target span rest taken =>
    obtain ⟨readyRest, code⟩ := ready.takeExpression taken
    refine { readyRest with slotTarget := ?_ }
    rintro other ⟨⟩
    exact .code code
  · split
    · exact ready
    · next item rest taken =>
      obtain ⟨readyRest, held⟩ := ready.takeFirst taken
      have code := slotExpression_from held
      generalize Head.slotExpression item.name = target at code ⊢
      refine { readyRest with slotTarget := ?_ }
      rintro other ⟨⟩
      exact code

theorem Ready.takeOutlet (ready : Ready start head) : Ready start head.takeOutlet.1 := by
  unfold Head.takeOutlet
  split
  · simp only
    split
    · next name span rest taken =>
      obtain ⟨readyRest, code⟩ := ready.takeExpression taken
      refine { readyRest with outletName := ?_ }
      rintro other ⟨⟩
      exact code
    · exact ready
  · exact ready

theorem Ready.takeComponent (ready : Ready start head) : Ready start head.takeComponent := by
  unfold Head.takeComponent
  split
  · next component span rest taken =>
    obtain ⟨readyRest, code⟩ := ready.takeExpression taken
    refine { readyRest with component := ?_ }
    rintro other ⟨⟩
    exact code
  · exact ready

/-! ## Extensions -/

theorem Ready.extend (ready : Ready start head) {name code : String}
    (stems : ExtensionFrom start.given (name, code)) :
    Ready start { head with extensions := Dictionary.insert name code head.extensions } := by
  refine { ready with extensions := fun entry held => ?_ }
  rcases Dictionary.mem_insert held with rfl | held
  · exact stems
  · exact ready.extensions entry held

theorem Ready.takeBound (ready : Ready start head) {name : String} {boundCode : String → String}
    (bound : ∀ binding value, isBindingName binding = true → Given.holds start.given binding value →
      ExtensionFrom start.given (name, boundCode value)) (diagnostics : List Diagnostic) :
    Ready start (match head.takeBinding? name with
      | none => (head, diagnostics)
      | some (item, rest) =>
        ({ rest with
            extensions := Dictionary.insert name (boundCode (item.value.getD "")) rest.extensions },
          diagnostics)).1 := by
  split
  · exact ready
  · next item rest taken =>
    obtain ⟨readyRest, held⟩ := ready.takeFirst taken
    exact readyRest.extend (bound item.name _ (takeBinding_binds taken) held)

theorem Ready.takeBoth (ready : Ready start head) {name staticKey : String}
    {staticCode boundCode : String → String}
    (static : ∀ value, ExtensionFrom start.given (staticKey, staticCode value))
    (bound : ∀ binding value, isBindingName binding = true → Given.holds start.given binding value →
      ExtensionFrom start.given (name, boundCode value)) (delimiters : Delimiters) :
    Ready start (Web.takeBoth name staticKey staticCode boundCode delimiters head).1 := by
  unfold Web.takeBoth
  cases taken : head.take? name with
  | none => exact ready.takeBound bound []
  | some found =>
    obtain ⟨item, rest⟩ := found
    exact ((ready.take taken).1.extend (static (item.value.getD ""))).takeBound bound _

/-- The extension keeps code of the attributes given only. -/
def Extension.IsFaithful (extension : Extension) : Prop :=
  ∀ (start : Head) (delimiters : Delimiters) (head : Head), Ready start head →
    Ready start (extension.transform delimiters head).1

theorem classExtension_isFaithful : Web.classExtension.IsFaithful := fun _ delimiters _ ready =>
  ready.takeBoth (fun value => .classes value rfl)
    (fun name value binds held => .bound name value binds held rfl) delimiters

theorem styleExtension_isFaithful : Web.styleExtension.IsFaithful := fun _ delimiters _ ready =>
  ready.takeBoth (fun value => .styles value rfl)
    (fun name value binds held => .grouped name value binds held rfl) delimiters

theorem Ready.applyExtensions {extensions : List Extension}
    (faithful : ∀ extension ∈ extensions, extension.IsFaithful) (delimiters : Delimiters)
    (ready : Ready start head) :
    Ready start (Head.applyExtensions delimiters extensions head).1 := by
  induction extensions generalizing head with
  | nil => exact ready
  | cons extension others ih =>
    exact ih (fun other held => faithful other (List.mem_cons_of_mem extension held))
      (faithful extension List.mem_cons_self start delimiters head ready)

/-! ## Attributes that no rule has taken -/

theorem markEvent_source (listener : Listener) (mark : String × String) :
    (Head.markEvent listener mark).source = listener.source ∧
      (Head.markEvent listener mark).hasNameExpression = listener.hasNameExpression := by
  unfold Head.markEvent
  split <;> exact ⟨rfl, rfl⟩

theorem renameClick_source (listener : Listener) :
    (Head.renameClick listener).source = listener.source ∧
      (Head.renameClick listener).hasNameExpression = listener.hasNameExpression := by
  unfold Head.renameClick
  split
  · exact ⟨rfl, rfl⟩
  · split <;> exact ⟨rfl, rfl⟩

theorem ListenerFrom.congr {listener other : Listener} (stems : ListenerFrom start.given listener)
    (source : other.source = listener.source)
    (named : other.hasNameExpression = listener.hasNameExpression) : ListenerFrom start.given other := by
  cases stems with
  | event name listens held bracketed =>
    exact .event name listens (source ▸ held) (named ▸ bracketed)
  | sync name value binds held same plain =>
    exact .sync name value binds held (source.trans same) (named.trans plain)

theorem forall_mem_concat {α : Type} {holds : α → Prop} {items : List α} {item : α}
    (all : ∀ other ∈ items, holds other) (last : holds item) :
    ∀ other ∈ items ++ [item], holds other := by
  intro other held
  rcases List.mem_append.mp held with held | held
  · exact all other held
  · exact List.mem_singleton.mp held ▸ last

theorem Ready.addListener (ready : Ready start head) {listener : Listener}
    (stems : ListenerFrom start.given listener) : Ready start (head.addListener listener).1 := by
  have marked : ∀ (marks : List (String × String)) (bare : Listener),
      ListenerFrom start.given bare →
      ListenerFrom start.given (marks.foldl Head.markEvent bare) := by
    intro marks
    induction marks with
    | nil => exact fun _ stemsBare => stemsBare
    | cons mark others ih =>
      intro bare stemsBare
      exact ih _ (stemsBare.congr (markEvent_source bare mark).1 (markEvent_source bare mark).2)
  have named : ListenerFrom start.given
      (if listener.hasNameExpression then listener
        else Head.eventMarks.foldl Head.markEvent (Head.renameClick listener)) := by
    split
    · exact stems
    · exact marked _ _ (stems.congr (renameClick_source listener).1 (renameClick_source listener).2)
  unfold Head.addListener
  simp only
  generalize (if listener.hasNameExpression then listener
    else Head.eventMarks.foldl Head.markEvent (Head.renameClick listener)) = final at named ⊢
  split
  · exact { ready with
      nativeListeners := forall_mem_concat ready.nativeListeners (named.congr rfl rfl) }
  · exact { ready with listeners := forall_mem_concat ready.listeners (named.congr rfl rfl) }

theorem Ready.addBinding (ready : Ready start head) {platform : Platform} {name argument value : String}
    {modifiers : List String} {span : Span} (binds : isBindingName name = true)
    (held : Given.holds start.given name value) (inside : '[' ∈ argument.toList → '[' ∈ name.toList) :
    Ready start (head.addBinding platform argument modifiers value span).1 := by
  unfold Head.addBinding
  simp only
  have bracketed : (AttributeName.argument argument).2 = true → '[' ∈ name.toList :=
    fun isExpression => inside (bracket_mem_of_argument isExpression)
  generalize (AttributeName.argument argument).1 = plain
  generalize (AttributeName.argument argument).2 = isExpression at bracketed ⊢
  have synced : Ready start
      (if !isExpression && modifiers.contains "sync" then
        { head with
          listeners := head.listeners ++
            [⟨"update:" ++ AttributeName.camelize plain, value ++ "=$event", [], false, span⟩] }
      else head) := by
    split
    · exact { ready with
        listeners := forall_mem_concat ready.listeners (.sync name value binds held rfl rfl) }
    · exact ready
  generalize (if !isExpression && modifiers.contains "sync" then
    { head with
      listeners := head.listeners ++
        [⟨"update:" ++ AttributeName.camelize plain, value ++ "=$event", [], false, span⟩] }
    else head) = middle at synced ⊢
  generalize (if !isExpression && (modifiers.contains "prop" || modifiers.contains "camel") then
    AttributeName.camelize plain else plain) = bound
  split
  · exact { synced with
      props := forall_mem_concat synced.props (.binding name binds held rfl bracketed) }
  · exact { synced with
      attributes := forall_mem_concat synced.attributes (.binding name binds held rfl bracketed) }

theorem Ready.addDirective (ready : Ready start head) {rest rawName value : String}
    {modifiers : List String} {span : Span} (held : Given.holds start.given rawName value)
    (named : AttributeName.isDirective rawName = true) (noLoop : rawName ≠ "v-for")
    (noListener : isListenerName rawName = false)
    (spreads : rest = "bind" → isBindingName rawName = true)
    (inside : '[' ∈ rest.toList → '[' ∈ rawName.toList) :
    Ready start (head.addDirective rest rawName modifiers value span) := by
  unfold Head.addDirective
  cases cut : cutAt? ':' rest.toList with
  | none =>
    simp only
    split
    · next isSpread =>
      refine { ready with spread := ?_ }
      rintro code ⟨⟩
      exact ⟨rawName, spreads (by simpa using isSpread), held⟩
    · exact { ready with
        directives := forall_mem_concat ready.directives
          ⟨held, named, noLoop, noListener, fun computed => by simp at computed⟩ }
  | some found =>
    obtain ⟨before, after⟩ := found
    have bracketed : (AttributeName.argument (String.ofList after)).2 = true → '[' ∈ rawName.toList := by
      intro isExpression
      refine inside ?_
      rw [breakAt_eq_some cut]
      have within := bracket_mem_of_argument isExpression
      rw [String.toList_ofList] at within
      simp [within]
    simp only [Option.isNone_some, Bool.and_false, Bool.false_eq_true, if_false]
    exact { ready with
      directives := forall_mem_concat ready.directives
        ⟨held, named, noLoop, noListener, fun computed => bracketed (by simpa using computed)⟩ }

theorem Ready.addAttribute {settings : Settings} (ready : Ready start head) {item : SourceAttribute}
    (held : Given.holds start.given item.name (item.value.getD "")) (noLoop : item.name ≠ "v-for") :
    Ready start (head.addAttribute settings item).1 := by
  unfold Head.addAttribute
  split
  · next isDirective =>
    simp only
    have colon := after_splitModifiers_isSome ":" (by decide) item.name
    have long := after_splitModifiers_isSome "v-bind:" (by decide) item.name
    have atSign := after_splitModifiers_isSome "@" (by decide) item.name
    have longEvent := after_splitModifiers_isSome "v-on:" (by decide) item.name
    have dash := after_splitModifiers_isSome "v-" (by decide) item.name
    have contained {lead rest : String} {c : Char} :=
      @mem_of_after_splitModifiers lead item.name rest c
    have whole : (AttributeName.splitModifiers item.name).1 = "v-bind" →
        isBindingName item.name = true := fun same => by simp [isBindingName, same]
    generalize (AttributeName.splitModifiers item.name).1 = name at *
    generalize (AttributeName.splitModifiers item.name).2 = modifiers
    -- The leads are tried in the order of the definition, so that of each that failed it is known.
    cases short : AttributeName.after? ":" name with
    | some argument =>
      rw [short, Option.isSome_some] at colon
      refine ready.addBinding ?_ held fun inside => contained short inside
      simp [isBindingName, ← colon]
    | none =>
      cases full : AttributeName.after? "v-bind:" name with
      | some argument =>
        rw [full, Option.isSome_some] at long
        refine ready.addBinding ?_ held fun inside => contained full inside
        simp [isBindingName, ← long]
      | none =>
        cases event : AttributeName.after? "@" name with
        | some argument =>
          rw [event, Option.isSome_some] at atSign
          refine ready.addListener (.event item.name ?_ held fun named =>
            contained event (bracket_mem_of_argument named))
          simp [isListenerName, ← atSign]
        | none =>
          cases fullEvent : AttributeName.after? "v-on:" name with
          | some argument =>
            rw [fullEvent, Option.isSome_some] at longEvent
            refine ready.addListener (.event item.name ?_ held fun named =>
              contained fullEvent (bracket_mem_of_argument named))
            simp [isListenerName, ← longEvent]
          | none =>
            simp only [Option.orElse_none]
            cases found : AttributeName.after? "v-" name with
            | none => exact ready
            | some rest =>
              rw [event, Option.isSome_none] at atSign
              rw [fullEvent, Option.isSome_none] at longEvent
              refine ready.addDirective held isDirective noLoop ?_ ?_ fun inside =>
                contained found inside
              · simp [isListenerName, ← atSign, ← longEvent]
              · rintro rfl
                refine whole (String.toList_inj.mp ?_)
                rw [(after_eq_some_iff "v-" name "bind").mp found]
                rfl
  · exact { ready with attributes := forall_mem_concat ready.attributes (.literal rfl) }

theorem Ready.addAttributes {settings : Settings} {items : List SourceAttribute}
    (ready : Ready start head)
    (all : ∀ item ∈ items, Given.holds start.given item.name (item.value.getD "") ∧ item.name ≠ "v-for") :
    Ready start (Head.addAttributes settings items head).1 := by
  induction items generalizing head with
  | nil => exact ready
  | cons item others ih =>
    obtain ⟨held, noLoop⟩ := all item List.mem_cons_self
    exact ih (ready.addAttribute held noLoop) fun other inside =>
      all other (List.mem_cons_of_mem item inside)

theorem Ready.complete {settings : Settings} (ready : Ready start head)
    (faithful : ∀ extension ∈ settings.extensions, extension.IsFaithful) :
    Ready start (head.complete settings).1 := by
  have extended := ready.takeKey.takeRef.takeSlotTarget.takeOutlet.takeComponent.applyExtensions
    faithful settings.delimiters
  unfold Head.complete
  refine Ready.addAttributes ?_ fun item held =>
    ⟨⟨item.value, extended.pending item held, rfl⟩, extended.noLoop item held⟩
  exact { extended with
    names := List.nodup_nil
    pending := fun item held => by cases held
    noLoop := fun item held => by cases held }

end Ready

end Templating.Template
