import Templating.Proofs.Translation.Splices
import Templating.Template.Web
/-!
# Data objects are read back

`SoundHead` collects what the code captured in a head must satisfy.  Then the
data object of the element is read as its meaning, field by field.
-/
set_option autoImplicit false

namespace Templating.Rendering

open Templating.Text Templating.Template Templating.Expression Templating.Expression.Grammar
open Templating.Data

/-! ## What is spliced into source -/

def attributeSplices (item : Attribute) : List String :=
  (if item.hasNameExpression then [item.name] else []) ++ if item.isBound then [item.value] else []

def directiveSplices (directive : Directive) : List String :=
  (if directive.value == "" then [] else [directive.value]) ++
    if directive.hasArgumentExpression then directive.argument.toList else []

def ListenerReads (source : String) : Prop :=
  Reads listenerSource endsListener source.toList (trimmed source)

structure GroupReads (group : ListenerGroup) : Prop where
  event : group.hasNameExpression = true → readsAlone group.event = true
  source : ListenerReads group.source

/-- What code generation adds for settings without extensions of their own. -/
structure StandardSettings (settings : Settings) : Prop where
  extensions : settings.extensions = [] ∨
    settings.extensions = [Web.classExtension, Web.styleExtension]
  props : ∀ directive, ∀ entry ∈ (directiveOutcome settings directive).props,
    directive.value ≠ "" ∧ entry.2 = "_s(" ++ directive.value ++ ")"

/-- All that an attribute contributes to source is read as it is meant. -/
def SoundAttribute (item : Attribute) : Prop := ∀ code ∈ attributeSplices item, readsAlone code = true

def SoundDirective (directive : Directive) : Prop :=
  ∀ code ∈ directiveSplices directive, readsAlone code = true

/-- All that a head contributes to source is read as it is meant. -/
structure SoundHead (head : Head) : Prop where
  tag : ∀ c ∈ head.tag.toList, c ≠ '\\' ∧ c ≠ '\x27'
  directives : ∀ directive ∈ head.directives, SoundDirective directive
  key : ∀ code ∈ head.key, readsAlone code = true
  ref : ∀ item ∈ head.ref, SoundAttribute item
  extensions : ∀ entry ∈ head.extensions, readsAlone entry.2 = true
  attributes : ∀ item ∈ head.attributes, SoundAttribute item
  props : ∀ item ∈ head.props, SoundAttribute item
  listeners : ∀ group ∈ listenerGroups head.listeners, GroupReads group
  nativeListeners : ∀ group ∈ listenerGroups head.nativeListeners, GroupReads group
  slotTarget : ∀ code ∈ head.slotTarget, readsAlone code = true
  spread : ∀ code ∈ head.spread, readsAlone code = true
  component : ∀ code ∈ head.component, readsAlone code = true
  outletName : ∀ code ∈ head.outletName, readsAlone code = true
  condition : ∀ code ∈ head.condition, readsAlone code = true
  source : ∀ header ∈ head.loop, readsAlone header.source = true
  targets : ∀ header ∈ head.loop, ∀ name ∈ header.targets, (parsePattern? name).isSome = true

theorem encode_reads (content : String) :
    ReadsOperand (Literal.encode content).toList (textExpr content) := by
  have read := literal_operand content.toList
  rw [String.ofList_toList] at read
  simpa [Literal.encode, textExpr] using read

theorem keyCode_reads (name : String) (isExpression : Bool)
    (reads : isExpression = true → readsAlone name = true) :
    KeyReads (keyCode name isExpression).toList (keyMeaning name isExpression) := by
  cases isExpression with
  | true =>
    have key := KeyReads.ofComputed (captured_reads (reads rfl))
    simpa [keyCode, keyMeaning] using key
  | false =>
    have key := KeyReads.ofLiteral name.toList
    rw [String.ofList_toList] at key
    simpa [keyCode, keyMeaning, Literal.encode] using key

/-! ## Attributes, directives and props -/

theorem attributeEntry_reads {item : Attribute}
    (splices : SoundAttribute item) :
    EntryReads (attributeEntry item).toList (attributeMeaning item) := by
  have key := keyCode_reads item.name item.hasNameExpression
    fun named => splices item.name (by simp [attributeSplices, named])
  have value : Reads expression endsListener
      (if item.isBound then item.value else Literal.encode item.value).toList
      (if item.isBound then captured item.value else textExpr item.value) := by
    cases bound : item.isBound with
    | true => exact captured_reads (splices item.value (by simp [attributeSplices, bound]))
    | false => exact (encode_reads item.value).listed
  have entry := key.entry value
  simpa [attributeEntry, attributeMeaning] using entry

theorem attributesCode_reads {items : List Attribute}
    (splices : ∀ item ∈ items, SoundAttribute item) :
    ReadsOperand (attributesCode items).toList (attributesMeaning items) := by
  have entries := forall₂_map EntryReads attributeEntry attributeMeaning
    fun item held => attributeEntry_reads (splices item held)
  rw [attributesCode, braced_toList]
  exact record_operand entries

theorem optionalFields {condition : Bool} {codes : List (List Char)} {entries : List Field}
    (reads : condition = false → List.Forall₂ EntryReads codes entries) :
    List.Forall₂ EntryReads (if condition then [] else codes) (if condition then [] else entries) := by
  cases condition with
  | false => exact reads rfl
  | true => exact .nil

theorem modifiers_read (modifiers : List String) :
    ReadsOperand (braced (modifiers.map fun modifier => Literal.encode modifier ++ ":true")).toList
      (.record (modifiers.map fun modifier => namedField modifier (booleanExpr true))) := by
  rw [braced_toList]
  refine record_operand (forall₂_map _ _ _ fun modifier _ => ?_)
  have entry := (keyCode_reads modifier false (by simp)).entry
    true_operand.listed
  simpa [keyCode, keyMeaning, namedField, booleanExpr] using entry

def directiveFieldCodes (directive : Directive) : List (List Char) :=
  ["name".toList ++ ':' :: (Literal.encode directive.name).toList,
      "rawName".toList ++ ':' :: (Literal.encode directive.rawName).toList] ++
    (if directive.value == "" then []
      else
        ["value".toList ++ ':' :: ('(' :: directive.value.toList ++ [')']),
          "expression".toList ++ ':' :: (Literal.encode directive.value).toList]) ++
    (directive.argument.toList.map fun argument =>
      "arg".toList ++ ':' ::
        (if directive.hasArgumentExpression then argument else Literal.encode argument).toList) ++
    (if directive.modifiers.isEmpty then []
      else
        ["modifiers".toList ++ ':' ::
          (braced (directive.modifiers.map fun modifier =>
            Literal.encode modifier ++ ":true")).toList])

theorem directiveCode_toList (directive : Directive) :
    (directiveCode directive).toList =
      '\x7b' :: commaList (directiveFieldCodes directive) ++ ['\x7d'] := by
  obtain ⟨name, rawName, argument, hasArgumentExpression, modifiers, value, span⟩ := directive
  cases argument <;> by_cases noValue : value = "" <;> by_cases none : modifiers = [] <;>
    simp [directiveCode, directiveFieldCodes, noValue, none, commaList, commaTail]

theorem directiveCode_reads {directive : Directive}
    (splices : SoundDirective directive) :
    ReadsOperand (directiveCode directive).toList (directiveMeaning directive) := by
  rw [directiveCode_toList]
  refine record_operand (List.rel_append (List.rel_append (List.rel_append ?_ ?_) ?_) ?_)
  · exact .cons (namedField_reads (by decide) (encode_reads _).listed)
      (.cons (namedField_reads (by decide) (encode_reads _).listed) .nil)
  · refine optionalFields fun given => ?_
    have reads := captured_reads (splices directive.value (by simp [directiveSplices, given]))
    exact .cons (namedField_reads (by decide) (group_operand reads).listed)
      (.cons (namedField_reads (by decide) (encode_reads _).listed) .nil)
  · cases given : directive.argument with
    | none => exact .nil
    | some argument =>
      refine .cons (namedField_reads (by decide) ?_) .nil
      cases isExpression : directive.hasArgumentExpression with
      | true =>
        exact captured_reads (splices argument (by simp [directiveSplices, given, isExpression]))
      | false => exact (encode_reads argument).listed
  · refine optionalFields fun _ => ?_
    exact .cons (namedField_reads (by decide) (modifiers_read directive.modifiers).listed) .nil

/-! ## Fields of the data object -/

theorem helperCall_reads (name : String) (identifier : isIdentifier name.toList = true)
    (free : name ∉ reserved) {codes : List (List Char)} {results : List Expr}
    (items : List.Forall₂ (Reads expression endsListener) codes results) :
    ReadsOperand (name.toList ++ '(' :: commaList codes ++ [')']) (helperCall name results) := by
  have read := call_operand identifier (by rwa [String.ofList_toList]) items
  rwa [String.ofList_toList] at read

theorem optionalField_read {name : String} {code : Option String} (named : isFieldName name = true)
    (splices : ∀ given ∈ code, readsAlone given = true) :
    FieldsRead (optionalField name code) (optionalMeaning name code) := by
  cases code with
  | none => exact .none
  | some given => exact .single _ _ named (captured_reads (splices given (by simp)))

theorem directivesField_read {settings : Settings} {head : Head}
    (splices : ∀ directive ∈ head.directives, SoundDirective directive) :
    FieldsRead
      (if (keptDirectives settings head).isEmpty then ""
        else dataField "directives"
          ("[" ++ join "," ((keptDirectives settings head).map directiveCode) ++ "]"))
      (unlessEmpty "directives" (keptDirectives settings head)
        fun kept => .list (kept.map directiveMeaning)) := by
  refine FieldsRead.optional fun _ => .single _ _ (by decide) ?_
  have items := forall₂_map (Reads expression endsListener) directiveCode
    directiveMeaning fun directive (held : directive ∈ keptDirectives settings head) =>
      (directiveCode_reads (splices directive (List.mem_of_mem_filter held))).listed
  have read := (list_operand items).listed
  simpa [join_toList] using read

theorem refField_read {inLoop : Bool} {head : Head}
    (splices : ∀ item ∈ head.ref, SoundAttribute item) :
    FieldsRead (refField inLoop head) (head.ref.toList.flatMap (refMeaning inLoop)) := by
  unfold refField
  cases given : head.ref with
  | none => exact .none
  | some item =>
    have value : Reads expression endsListener
        (if item.isBound then item.value else Literal.encode item.value).toList
        (if item.isBound then captured item.value else textExpr item.value) := by
      cases bound : item.isBound with
      | true =>
        exact captured_reads (splices item (by simp [given]) item.value
          (by simp [attributeSplices, bound]))
      | false => exact (encode_reads item.value).listed
    have first := FieldsRead.single "ref" _ (by decide) value
    cases inLoop with
    | false => simpa [refMeaning] using first.append .none
    | true =>
      have second : FieldsRead "refInFor:true," [namedField "refInFor" (booleanExpr true)] :=
        .single "refInFor" "true" (by decide) true_operand.listed
      simpa [refMeaning] using first.append second

theorem find?_mem {α : Type} {name : String} {entries : Dictionary α} {value : α}
    (found : Dictionary.find? name entries = some value) : (name, value) ∈ entries := by
  induction entries with
  | nil => cases found
  | cons entry others ih =>
    obtain ⟨held, kept⟩ := entry
    by_cases same : name = held
    · subst same
      simp only [Dictionary.find?, if_true, Option.some.injEq] at found
      subst found
      exact List.mem_cons_self
    · rw [Dictionary.find?, if_neg same] at found
      exact List.mem_cons_of_mem _ (ih found)

theorem fieldCode_read (name : String) {head : Head} (named : isFieldName name = true)
    (splices : ∀ entry ∈ head.extensions, readsAlone entry.2 = true) :
    FieldsRead (Web.fieldCode name head)
      ((Dictionary.find? name head.extensions).toList.map fun code =>
        namedField name (captured code)) := by
  unfold Web.fieldCode
  cases found : Dictionary.find? name head.extensions with
  | none => exact .none
  | some code =>
    exact .single _ _ named (captured_reads (splices (name, code) (find?_mem found)))

theorem extensionFields_read {settings : Settings} {head : Head} (standard : StandardSettings settings)
    (sound : SoundHead head) :
    FieldsRead (String.join (settings.extensions.map fun extension => extension.fields head))
      (extensionsMeaning settings head) := by
  have splices := sound.extensions
  rcases standard.extensions with none | both
  · simpa [extensionsMeaning, none, String.join] using FieldsRead.none
  · have fields := (((fieldCode_read "staticClass" (by decide) splices).append
      (fieldCode_read "class" (by decide) splices)).append
      (fieldCode_read "staticStyle" (by decide) splices)).append
      (fieldCode_read "style" (by decide) splices)
    simpa [extensionsMeaning, extensionKeys, both, String.join, Web.classExtension,
      Web.styleExtension, String.append_assoc] using fields

/-! ## Listeners -/

theorem groupCode_reads {group : ListenerGroup} (sound : GroupReads group) :
    Reads (listenerEntry expression) endsListener group.code.toList
      (keyMeaning group.event group.hasNameExpression, trimmed group.source) := by
  have entry := (keyCode_reads _ _ sound.event).listener sound.source
  have source : group.code = keyCode group.event group.hasNameExpression ++ ":" ++ group.source := by
    unfold ListenerGroup.code ListenerGroup.source
    split <;> simp_all
  simpa [source] using entry

theorem listenersField_read {name : String} {listeners : List Listener}
    (listens : name = "on" ∨ name = "nativeOn")
    (sound : ∀ group ∈ listenerGroups listeners, GroupReads group) :
    FieldsRead (if listeners.isEmpty then "" else dataField name (listenersCode listeners))
      (unlessEmpty name listeners listenersMeaning) := by
  refine FieldsRead.optional fun _ => ?_
  have items := forall₂_map (Reads (listenerEntry expression) endsListener) ListenerGroup.code
    (fun group => (keyMeaning group.event group.hasNameExpression, trimmed group.source))
    fun group (held : group ∈ listenerGroups listeners) => groupCode_reads (sound group held)
  have identifier : isIdentifier name.toList = true := by rcases listens with rfl | rfl <;> decide
  have field := listenersField_reads identifier (by simpa using listens) items
  rw [String.ofList_toList] at field
  refine ⟨[name.toList ++ ':' :: (listenersCode listeners).toList], by simp [dataField], .cons ?_ .nil⟩
  have source : (listenersCode listeners).toList =
      '\x7b' :: commaList ((listenerGroups listeners).map ListenerGroup.code |>.map String.toList) ++
        ['\x7d'] := by
    simp [listenersCode, listenerGroups, join_toList]
  rw [source]
  exact field

/-! ## Props -/

theorem directiveProps_read {settings : Settings} (standard : StandardSettings settings)
    {directive : Directive}
    (splices : SoundDirective directive) :
    List.Forall₂ EntryReads
      (((directiveOutcome settings directive).props.map fun (name, code) =>
        Literal.encode name ++ ":" ++ code).map String.toList)
      (directiveProps settings directive) := by
  refine forall₂_map _ _ _ fun entry held => ?_
  obtain ⟨given, code⟩ := standard.props directive entry held
  have value := captured_reads (splices directive.value (by simp [directiveSplices, given]))
  have call := helperCall_reads "_s" (by decide) (by decide) (.cons value .nil)
  have field := (keyCode_reads entry.1 false (by simp)).entry call.listed
  simpa [keyCode, keyMeaning, namedField, code, commaList, commaTail] using field

def propCodes (settings : Settings) (head : Head) : List String :=
  head.props.map attributeEntry ++
    head.directives.flatMap fun directive =>
      (directiveOutcome settings directive).props.map fun (name, code) =>
        Literal.encode name ++ ":" ++ code

theorem propCodes_read {settings : Settings} (standard : StandardSettings settings) {head : Head}
    (props : ∀ item ∈ head.props, SoundAttribute item)
    (directives : ∀ directive ∈ head.directives, SoundDirective directive) :
    List.Forall₂ EntryReads ((propCodes settings head).map String.toList)
      (propsMeaning settings head) := by
  rw [propCodes, propsMeaning, List.map_append]
  refine List.rel_append (forall₂_map _ _ _ fun item held => attributeEntry_reads (props item held)) ?_
  generalize head.directives = all at directives ⊢
  induction all with
  | nil => exact .nil
  | cons directive others ih =>
    rw [List.flatMap_cons, List.flatMap_cons, List.map_append]
    exact List.rel_append (directiveProps_read standard (directives directive List.mem_cons_self))
      (ih fun other held => directives other (List.mem_cons_of_mem directive held))

theorem propsField_read {settings : Settings} (standard : StandardSettings settings) {head : Head}
    (props : ∀ item ∈ head.props, SoundAttribute item)
    (directives : ∀ directive ∈ head.directives, SoundDirective directive) :
    FieldsRead
      (if (propCodes settings head).isEmpty then ""
        else dataField "domProps" (braced (propCodes settings head)))
      (unlessEmpty "domProps" (propsMeaning settings head) .record) := by
  have entries := propCodes_read standard props directives
  have same : (propCodes settings head).isEmpty = (propsMeaning settings head).isEmpty := by
    have lengths := entries.length_eq
    rw [List.length_map] at lengths
    rw [Bool.eq_iff_iff, List.isEmpty_iff_length_eq_zero, List.isEmpty_iff_length_eq_zero, lengths]
  rw [same]
  refine FieldsRead.optional fun _ => .single _ _ (by decide) ?_
  rw [braced_toList]
  exact (record_operand entries).listed

/-! ## The whole object -/

theorem dataFields_eq (settings : Settings) (inLoop : Bool) (head : Head) :
    dataFields settings inLoop head =
      (if (keptDirectives settings head).isEmpty then ""
        else dataField "directives"
          ("[" ++ join "," ((keptDirectives settings head).map directiveCode) ++ "]")) ++
        optionalField "key" head.key ++ refField inLoop head ++
        (if head.isVerbatim then "pre:true," else "") ++
        (if head.component.isSome then dataField "tag" (Literal.encode head.tag) else "") ++
        String.join (settings.extensions.map fun extension => extension.fields head) ++
        (if head.attributes.isEmpty then ""
          else dataField "attrs" (attributesCode head.attributes)) ++
        (if (propCodes settings head).isEmpty then ""
          else dataField "domProps" (braced (propCodes settings head))) ++
        (if head.listeners.isEmpty then "" else dataField "on" (listenersCode head.listeners)) ++
        (if head.nativeListeners.isEmpty then ""
          else dataField "nativeOn" (listenersCode head.nativeListeners)) ++
        optionalField "slot" head.slotTarget := by
  have kept : ((head.directives.map fun directive =>
      (directive, directiveOutcome settings directive)).filter fun entry => entry.2.isKept).map
        (fun entry => directiveCode entry.1) = (keptDirectives settings head).map directiveCode := by
    simp [keptDirectives, List.filter_map, Function.comp_def]
  have props : head.props.map attributeEntry ++ ((head.directives.map fun directive =>
      (directive, directiveOutcome settings directive)).flatMap fun entry => entry.2.props).map
        (fun (name, code) => Literal.encode name ++ ":" ++ code) = propCodes settings head := by
    simp [propCodes, List.flatMap_map, List.map_flatMap]
  simp only [dataFields, kept, props, List.isEmpty_map]

theorem dataFields_read {settings : Settings} (standard : StandardSettings settings) (inLoop : Bool)
    {head : Head} (sound : SoundHead head) :
    FieldsRead (dataFields settings inLoop head) (dataMeaning settings inLoop head) := by
  have verbatim : FieldsRead (if head.isVerbatim then "pre:true," else "")
      (if head.isVerbatim then [namedField "pre" (booleanExpr true)] else []) := by
    cases head.isVerbatim with
    | false => exact .none
    | true => exact .single "pre" "true" (by decide) true_operand.listed
  have tag : FieldsRead
      (if head.component.isSome then dataField "tag" (Literal.encode head.tag) else "")
      (if head.component.isSome then [namedField "tag" (textExpr head.tag)] else []) := by
    cases head.component.isSome with
    | false => exact .none
    | true => exact .single _ _ (by decide) (encode_reads head.tag).listed
  have attrs : FieldsRead
      (if head.attributes.isEmpty then "" else dataField "attrs" (attributesCode head.attributes))
      (unlessEmpty "attrs" head.attributes attributesMeaning) :=
    .optional fun _ => .single _ _ (by decide) (attributesCode_reads sound.attributes).listed
  rw [dataFields_eq]
  exact ((((((((((directivesField_read sound.directives).append
    (optionalField_read (by decide) sound.key)).append (refField_read sound.ref)).append
    verbatim).append tag).append (extensionFields_read standard sound)).append attrs).append
    (propsField_read standard sound.props sound.directives)).append
    (listenersField_read (.inl rfl) sound.listeners)).append
    (listenersField_read (.inr rfl) sound.nativeListeners)).append
    (optionalField_read (by decide) sound.slotTarget)

/-- The data object is read as what it means. -/
theorem dataCode_reads {settings : Settings} (standard : StandardSettings settings) (inLoop : Bool)
    {head : Head} (sound : SoundHead head) :
    ReadsOperand (dataCode settings inLoop head).toList (dataObject settings inLoop head) := by
  have object := (dataFields_read standard inLoop sound).record
  unfold dataCode dataObject
  cases given : head.spread with
  | none => simpa using object
  | some spread =>
    have reads := captured_reads (sound.spread spread given)
    have tag := quoted_operand sound.tag
    rw [String.ofList_toList] at tag
    have call := helperCall_reads "_b" (by decide) (by decide) (.cons object.listed
      (.cons tag.listed (.cons (group_operand reads).listed (.cons false_operand.listed .nil))))
    simpa [commaList, commaTail, textExpr, booleanExpr] using call

theorem dataCode_eq_empty_iff {settings : Settings} (standard : StandardSettings settings)
    (inLoop : Bool) {head : Head} (sound : SoundHead head) :
    (dataCode settings inLoop head == "\x7b\x7d") = !needsData settings inLoop head := by
  have empty := (dataFields_read standard inLoop sound).isEmpty
  unfold dataCode needsData
  cases given : head.spread with
  | some spread =>
    simp only [Option.isSome_some, Bool.or_true, Bool.not_true, beq_eq_false_iff_ne, ne_eq]
    intro same
    have lists := congrArg String.toList same
    simp at lists
  | none =>
    simp only [Option.isSome_none, Bool.or_false, Bool.not_not]
    rw [Bool.eq_iff_iff, beq_iff_eq, List.isEmpty_iff, ← empty, ← String.toList_inj]
    simp

end Templating.Rendering
