import Templating.Template.AttributeName
import Templating.Template.Settings
/-!
# What attributes mean

An element's attributes are taken from its start tag one rule after another:
structure first (loops, conditions), when the element closes its key, reference,
slot and component, then the extensions, and last each attribute that is left.
-/
set_option autoImplicit false

namespace Templating.Template

open Templating.Text Templating.Data Templating.Markup

namespace Head

/-- The expression of `:name`, or the literal of `name`. -/
def takeExpression? (name : String) (head : Head) : Option (String × Span × Head) :=
  match head.takeBinding? name with
  | some (item, rest) => some (item.value.getD "", item.span, rest)
  | none =>
    (head.take? name).map fun (item, rest) =>
      (Literal.encode (item.value.getD ""), item.span, rest)

def takeVerbatim (head : Head) : Head :=
  { head with
    pending := []
    attributes := head.attributes ++
      head.pending.map fun item => .literal item.name (item.value.getD "") item.span }

def takeLoop (head : Head) : Head × List Diagnostic :=
  match head.take? "v-for" with
  | none => (head, [])
  | some (item, rest) =>
    let header := item.value.getD ""
    match Loop.parse? header with
    | some loop => ({ rest with loop := some loop }, [])
    | none => (rest, [.errorAt item.span (.invalidLoop header)])

def takeCondition (head : Head) : Head × List Diagnostic :=
  match head.take? "v-if" with
  | some (item, rest) =>
    let expression := item.value.getD ""
    if allBlank expression then (rest, [])
    else
      ({ rest with condition := some expression },
        if head.loop.isSome then [.tipAt item.span .conditionOnLoop] else [])
  | none =>
    match head.take? "v-else" with
    | some (_, rest) => ({ rest with isElse := true }, [])
    | none =>
      match head.take? "v-else-if" with
      | some (item, rest) => ({ rest with branchCondition := some (item.value.getD "") }, [])
      | none => (head, [])

def takeOnce (head : Head) : Head :=
  match head.take? "v-once" with
  | some (_, rest) => { rest with isOnce := true }
  | none => head

/-- The rules on structure, which apply when the element opens. -/
def takeStructure (head : Head) : Head × List Diagnostic :=
  let (looped, loopDiagnostics) := head.takeLoop
  let (conditioned, conditionDiagnostics) := looped.takeCondition
  (conditioned.takeOnce, loopDiagnostics ++ conditionDiagnostics)

def takeKey (head : Head) : Head × List Diagnostic :=
  match head.takeExpression? "key" with
  | none => (head, [])
  | some (key, span, rest) =>
    if head.tag == "template" then (rest, [.errorAt span .keyedTemplate])
    else ({ rest with key := some key }, [])

def takeRef (head : Head) : Head :=
  match head.takeBinding? "ref" with
  | some (item, rest) =>
    { rest with ref := some ⟨"ref", item.value.getD "", true, false, item.span⟩ }
  | none =>
    match head.take? "ref" with
    | some (item, rest) =>
      { rest with ref := some (.literal "ref" (item.value.getD "") item.span) }
    | none => head

def isSlotName (name : String) : Bool :=
  name == "v-slot" || (AttributeName.after? "v-slot:" name).isSome ||
    (AttributeName.after? "#" name).isSome

def slotExpression (name : String) : String :=
  let plain := (AttributeName.splitModifiers name).1
  let given := ((AttributeName.after? "#" plain).orElse fun _ =>
    AttributeName.after? "v-slot:" plain).getD "default"
  let (argument, isExpression) := AttributeName.argument given
  if isExpression then argument else Literal.encode argument

def takeSlotTarget (head : Head) : Head × List Diagnostic :=
  match head.takeExpression? "slot" with
  | some (target, _, rest) => ({ rest with slotTarget := some target }, [])
  | none =>
    match head.takeFirst? fun item => isSlotName item.name with
    | none => (head, [])
    | some (item, rest) =>
      let value := item.value.getD ""
      ({ rest with slotTarget := some (slotExpression item.name) },
        if allBlank value then [] else [.errorAt item.span (.scopedSlot item.name value)])

def takeOutlet (head : Head) : Head × List Diagnostic :=
  if head.tag == "slot" then
    let named :=
      match head.takeExpression? "name" with
      | some (name, _, rest) => { rest with outletName := some name }
      | none => head
    (named, if head.key.isSome then [.errorAt head.span .keyedOutlet] else [])
  else (head, [])

def takeComponent (head : Head) : Head :=
  match head.takeExpression? "is" with
  | some (component, _, rest) => { rest with component := some component }
  | none => head

def applyExtensions (delimiters : Delimiters) : List Extension → Head → Head × List Diagnostic
  | [], head => (head, [])
  | extension :: rest, head =>
    let (changed, diagnostics) := extension.transform delimiters head
    let (final, others) := applyExtensions delimiters rest changed
    (final, diagnostics ++ others)

/-- The modifiers that become a mark before the name of the event, in the order
in which the marks are written. -/
def eventMarks : List (String × String) := [("capture", "!"), ("once", "~"), ("passive", "&")]

def markEvent (listener : Listener) (mark : String × String) : Listener :=
  if listener.modifiers.contains mark.1 then
    { listener with
      event := mark.2 ++ listener.event
      modifiers := listener.modifiers.filter (· != mark.1) }
  else listener

/-- Clicks of the other mouse buttons are events of their own. -/
def renameClick (listener : Listener) : Listener :=
  if listener.event == "click" && listener.modifiers.contains "right" then
    { listener with
      event := "contextmenu", modifiers := listener.modifiers.filter (· != "right") }
  else if listener.event == "click" && listener.modifiers.contains "middle" then
    { listener with event := "mouseup" }
  else listener

def addListener (listener : Listener) (head : Head) : Head × List Diagnostic :=
  let diagnostics : List Diagnostic :=
    if listener.modifiers.contains "prevent" && listener.modifiers.contains "passive" then
      [.tipAt listener.span .passivePrevent]
    else []
  let named :=
    if listener.hasNameExpression then listener
    else eventMarks.foldl markEvent (renameClick listener)
  let final := { named with modifiers := named.modifiers.filter (· != "native") }
  if named.modifiers.contains "native" then
    ({ head with nativeListeners := head.nativeListeners ++ [final] }, diagnostics)
  else ({ head with listeners := head.listeners ++ [final] }, diagnostics)

/-- `:name="expression"`. -/
def addBinding (platform : Platform) (given : String) (modifiers : List String) (value : String)
    (span : Span) (head : Head) : Head × List Diagnostic :=
  let (argument, isExpression) := AttributeName.argument given
  let asProp := modifiers.contains "prop"
  let name :=
    if !isExpression && (asProp || modifiers.contains "camel") then
      AttributeName.camelize argument
    else argument
  let synced :=
    if !isExpression && modifiers.contains "sync" then
      { head with
        listeners := head.listeners ++
          [⟨"update:" ++ AttributeName.camelize argument, value ++ "=$event", [], false, span⟩] }
    else head
  let isProp := asProp ||
    (!isExpression && head.component.isNone &&
      platform.mustUseProp head.tag (head.givenValue? "type") name)
  let bound : Attribute := ⟨name, value, true, isExpression, span⟩
  (if isProp then { synced with props := synced.props ++ [bound] }
    else { synced with attributes := synced.attributes ++ [bound] },
    if allBlank value then [.errorAt span (.emptyBinding argument)] else [])

/-- `v-name:argument.modifiers="value"`, where `rest` is what follows `v-`. -/
def addDirective (rest rawName : String) (modifiers : List String) (value : String) (span : Span)
    (head : Head) : Head :=
  let (name, argument) :=
    match cutAt? ':' rest.toList with
    | some (before, after) => (String.ofList before, some (String.ofList after))
    | none => (rest, none)
  if name == "bind" && argument.isNone then { head with spread := some value }
  else
    let parsed := argument.map AttributeName.argument
    { head with
      directives := head.directives ++
        [{ name, rawName, argument := parsed.map Prod.fst
           hasArgumentExpression := parsed.any Prod.snd, modifiers, value, span }] }

/-- The meaning of one attribute that no earlier rule has taken. -/
def addAttribute (settings : Settings) (head : Head) (item : SourceAttribute) :
    Head × List Diagnostic :=
  let value := item.value.getD ""
  if AttributeName.isDirective item.name then
    let (name, modifiers) := AttributeName.splitModifiers item.name
    match (AttributeName.after? ":" name).orElse fun _ => AttributeName.after? "v-bind:" name with
    | some given => head.addBinding settings.platform given modifiers value item.span
    | none =>
      match (AttributeName.after? "@" name).orElse fun _ => AttributeName.after? "v-on:" name with
      | some given =>
        let (event, isExpression) := AttributeName.argument given
        head.addListener ⟨event, value, modifiers, isExpression, item.span⟩
      | none =>
        match AttributeName.after? "v-" name with
        | some rest => (head.addDirective rest item.name modifiers value item.span, [])
        | none => (head, [.errorAt item.span (.misplacedDirective item.name)])
  else
    ({ head with attributes := head.attributes ++ [.literal item.name value item.span] },
      if hasInterpolation settings.delimiters value then
        [.errorAt item.span (.attributeInterpolation item.name value "id")]
      else [])

def addAttributes (settings : Settings) : List SourceAttribute → Head → Head × List Diagnostic
  | [], head => (head, [])
  | item :: rest, head =>
    let (changed, diagnostics) := head.addAttribute settings item
    let (final, others) := addAttributes settings rest changed
    (final, diagnostics ++ others)

/-- The rules that apply when the element closes. -/
def complete (settings : Settings) (head : Head) : Head × List Diagnostic :=
  let (keyed, keyDiagnostics) := head.takeKey
  let (targeted, slotDiagnostics) := keyed.takeRef.takeSlotTarget
  let (outlet, outletDiagnostics) := targeted.takeOutlet
  let (extended, extensionDiagnostics) :=
    outlet.takeComponent.applyExtensions settings.delimiters settings.extensions
  let (final, attributeDiagnostics) :=
    addAttributes settings extended.pending { extended with pending := [] }
  (final, keyDiagnostics ++ slotDiagnostics ++ outletDiagnostics ++ extensionDiagnostics ++
    attributeDiagnostics)

end Head

end Templating.Template
