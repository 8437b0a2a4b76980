import Templating.Rendering.Compilation
/-!
# What render source means

The expression that a template stands for, made from its tree without going
through source: an element is a call of `_c` with its tag, a data object and its
children, and what the template captured stands there as it is read alone.

The order of the fields of a data object is `directives`, `key`, `ref`,
`refInFor`, `pre`, `tag`, the codes of the extensions, `attrs`, `domProps`,
`on`, `nativeOn`, `slot`.
-/
set_option autoImplicit false

namespace Templating.Rendering

open Templating.Text Templating.Template Templating.Expression Templating.Data

/-- The expression that stands where `code` is written. -/
def captured (code : String) : Expr := (parseExpression? code).getD (.literal .undefined)

def textExpr (content : String) : Expr := .literal (.string content)

def numberExpr (value : Nat) : Expr := .literal (.number (Number.nearest false value 1))

def booleanExpr (value : Bool) : Expr := .literal (.boolean value)

def helperCall (name : String) (arguments : List Expr) : Expr := .call (.name name) arguments

abbrev Field := Key × Expr

def namedField (name : String) (value : Expr) : Field := (.fixed name, value)

/-! ## Data objects -/

def keyMeaning (name : String) (isExpression : Bool) : Key :=
  if isExpression then .computed (captured name) else .fixed name

def attributeMeaning (item : Attribute) : Field :=
  (keyMeaning item.name item.hasNameExpression,
    if item.isBound then captured item.value else textExpr item.value)

def attributesMeaning (items : List Attribute) : Expr := .record (items.map attributeMeaning)

def directiveMeaning (directive : Directive) : Expr :=
  .record
    ([namedField "name" (textExpr directive.name),
        namedField "rawName" (textExpr directive.rawName)] ++
      (if directive.value == "" then []
        else
          [namedField "value" (captured directive.value),
            namedField "expression" (textExpr directive.value)]) ++
      (directive.argument.toList.map fun argument =>
        namedField "arg"
          (if directive.hasArgumentExpression then captured argument else textExpr argument)) ++
      (if directive.modifiers.isEmpty then []
        else
          [namedField "modifiers"
            (.record (directive.modifiers.map fun modifier =>
              namedField modifier (booleanExpr true)))]))

def keptDirectives (settings : Settings) (head : Head) : List Directive :=
  head.directives.filter fun directive => (directiveOutcome settings directive).isKept

def directiveProps (settings : Settings) (directive : Directive) : List Field :=
  (directiveOutcome settings directive).props.map fun entry =>
    namedField entry.1 (helperCall "_s" [captured directive.value])

def propsMeaning (settings : Settings) (head : Head) : List Field :=
  head.props.map attributeMeaning ++ head.directives.flatMap (directiveProps settings)

def refMeaning (inLoop : Bool) (item : Attribute) : List Field :=
  namedField "ref" (if item.isBound then captured item.value else textExpr item.value) ::
    if inLoop then [namedField "refInFor" (booleanExpr true)] else []

/-- The names under which an extension keeps code, in the order of its fields. -/
def extensionKeys (extension : Extension) : List String :=
  match extension.name with
  | "class" => ["staticClass", "class"]
  | "style" => ["staticStyle", "style"]
  | _ => []

def extensionsMeaning (settings : Settings) (head : Head) : List Field :=
  (settings.extensions.flatMap extensionKeys).flatMap fun name =>
    (Dictionary.find? name head.extensions).toList.map fun code => namedField name (captured code)

def listenerGroups (listeners : List Listener) : List ListenerGroup :=
  listeners.foldl (fun groups listener => addToGroups listener groups) []

def ListenerGroup.source (group : ListenerGroup) : String :=
  match group.codes with
  | [code] => code
  | codes => "[" ++ join "," codes ++ "]"

def listenersMeaning (listeners : List Listener) : Expr :=
  .listeners ((listenerGroups listeners).map fun group =>
    (keyMeaning group.event group.hasNameExpression, trimmed group.source))

def optionalMeaning (name : String) (code : Option String) : List Field :=
  code.toList.map fun code => namedField name (captured code)

/-- A field that is there unless it would be empty. -/
def unlessEmpty {α : Type} (name : String) (items : List α) (value : List α → Expr) : List Field :=
  if items.isEmpty then [] else [namedField name (value items)]

def dataMeaning (settings : Settings) (inLoop : Bool) (head : Head) : List Field :=
  unlessEmpty "directives" (keptDirectives settings head)
      (fun kept => .list (kept.map directiveMeaning)) ++
    optionalMeaning "key" head.key ++
    head.ref.toList.flatMap (refMeaning inLoop) ++
    (if head.isVerbatim then [namedField "pre" (booleanExpr true)] else []) ++
    (if head.component.isSome then [namedField "tag" (textExpr head.tag)] else []) ++
    extensionsMeaning settings head ++
    unlessEmpty "attrs" head.attributes attributesMeaning ++
    unlessEmpty "domProps" (propsMeaning settings head) .record ++
    unlessEmpty "on" head.listeners listenersMeaning ++
    unlessEmpty "nativeOn" head.nativeListeners listenersMeaning ++
    optionalMeaning "slot" head.slotTarget

def dataObject (settings : Settings) (inLoop : Bool) (head : Head) : Expr :=
  let object := Expr.record (dataMeaning settings inLoop head)
  match head.spread with
  | some spread =>
    helperCall "_b" [object, textExpr head.tag, captured spread, booleanExpr false]
  | none => object

def needsData (settings : Settings) (inLoop : Bool) (head : Head) : Bool :=
  !(dataMeaning settings inLoop head).isEmpty || head.spread.isSome

/-! ## Calls -/

/-- What a translation has kept so far: the fragments, and the number of
subtrees rendered once for each key. -/
structure Kept where
  fragments : List Expr
  onceCount : Nat

def Kept.empty : Kept := ⟨[], 0⟩

abbrev Translation := StateM Kept

namespace Translation

def keepFragment (fragment : Expr) : Translation Nat := do
  let kept ← get
  set { kept with fragments := kept.fragments ++ [fragment] }
  return kept.fragments.length

def nextOnce : Translation Nat := do
  let kept ← get
  set { kept with onceCount := kept.onceCount + 1 }
  return kept.onceCount

end Translation

/-- Translates one node; the argument holds the keys of the loops around,
innermost first. -/
abbrev Translator := List (Option String) → Translation Expr

/-- The children as one argument: a list, or the list that a lone loop makes. -/
def childrenMeaning (children : List Node) (translators : List Translator)
    (loops : List (Option String)) : Translation (Option Expr) := do
  let parts ← translators.mapM fun translator => translator loops
  match parts with
  | [] => return none
  | [part] => return some (if isLoneLoop children then part else .list [part])
  | parts => return some (.list parts)

def outletProps (head : Head) : List Attribute :=
  head.attributes.map fun item =>
    { item with
      name := if item.hasNameExpression then item.name else AttributeName.camelize item.name }

/-- An outlet: its name, a function for what is shown if nothing is given, its
props and an object of more props.  What is left out before the last is null. -/
def outletMeaning (head : Head) (children : Option Expr) : Expr :=
  let props := outletProps head
  let fallback : List Expr :=
    match children with
    | some inner => [.function [] inner]
    | none => if !props.isEmpty || head.spread.isSome then [.literal .null] else []
  let given : List Expr :=
    if !props.isEmpty then [attributesMeaning props]
    else if head.spread.isSome then [.literal .null]
    else []
  let name := (head.outletName.map captured).getD (textExpr "default")
  helperCall "_t" (name :: fallback ++ given ++ head.spread.toList.map captured)

def coreMeaning (settings : Settings) (head : Head) (children : List Node)
    (translators : List Translator) : Translator := fun loops => do
  let inner ← childrenMeaning children translators loops
  if head.tag == "template" && head.slotTarget.isNone && !head.isVerbatim then
    return inner.getD (.literal .undefined)
  else if head.tag == "slot" then return outletMeaning head inner
  else
    let inLoop := !loops.isEmpty
    let data := dataObject settings inLoop head
    let arguments : List Expr :=
      match head.component with
      | some component => [captured component, data]
      | none =>
        if needsData settings inLoop head then [textExpr head.tag, data] else [textExpr head.tag]
    return helperCall "_c" (arguments ++ inner.toList)

/-! ## Layers -/

/-- A chain of conditionals; without a last branch there is nothing. -/
def branchesMeaning (loops : List (Option String)) :
    List (Option String × Translator) → Translation Expr
  | [] => return helperCall "_e" []
  | (some condition, translator) :: rest => do
    let block ← translator loops
    let others ← branchesMeaning loops rest
    return .conditional (captured condition) block others
  | (none, translator) :: _ => translator loops

def targetsMeaning (header : Loop) : List Pattern :=
  header.targets.filterMap parsePattern?

def Layer.meaning (context : Context) (head : Head)
    (branches : List (Option String × Translator)) (inner : Translator) : Layer → Translator
  | .hoist => fun loops => do
    let fragment ← inner loops
    let index ← Translation.keepFragment fragment
    return helperCall "_m"
      (numberExpr index ::
        if (context.annotations.get head.id).isInLoop then [booleanExpr true] else [])
  | .once => fun loops =>
    match loops.head?.join with
    | some key => do
      let block ← inner loops
      let id ← Translation.nextOnce
      return helperCall "_o" [block, numberExpr id, captured key]
    | none => inner loops
  | .loop => fun loops =>
    match head.loop with
    | some header => do
      let body ← inner (head.key :: loops)
      return helperCall "_l" [captured header.source, .function (targetsMeaning header) body]
    | none => inner loops
  | .choose => fun loops => do
    let block ← inner loops
    let others ← branchesMeaning loops branches
    return .conditional (captured (head.condition.getD "true")) block others

/-! ## Trees -/

def segmentMeaning : Segment → Expr
  | .literal content => textExpr content
  | .binding expression => helperCall "_s" [captured expression]

def segmentsMeaning : List Segment → Expr
  | [] => .literal .undefined
  | first :: others =>
    (others.map segmentMeaning).foldl (.binary .add) (segmentMeaning first)

def runMeaning (run : TextRun) : Expr :=
  helperCall "_v"
    [if run.segments.isEmpty then textExpr run.content else segmentsMeaning run.segments]

mutual

def elementMeaning (context : Context) : Element → Translator
  | ⟨head, children, branches⟩ =>
    (layers (context.annotations.get head.id) head).foldr
      (fun layer inner => layer.meaning context head (branchMeanings context branches) inner)
      (coreMeaning context.settings head children (nodeMeanings context children))

def nodeMeaning (context : Context) : Node → Translator
  | .element element => elementMeaning context element
  | .text run => fun _ => return runMeaning run
  | .comment comment => fun _ => return helperCall "_e" [textExpr comment.content]

def nodeMeanings (context : Context) : List Node → List Translator
  | [] => []
  | node :: rest => nodeMeaning context node :: nodeMeanings context rest

def branchMeanings (context : Context) : List Branch → List (Option String × Translator)
  | [] => []
  | ⟨condition, block⟩ :: rest =>
    (condition, elementMeaning context block) :: branchMeanings context rest

end

def documentMeaning (context : Context) (document : Document) : Translation Expr :=
  match document.root with
  | none => return helperCall "_c" [textExpr "div"]
  | some root =>
    if root.head.tag == "script" then return .literal .null else elementMeaning context root []

def Compiled.meaning (settings : Settings) (compiled : Compiled) : Expr × List Expr :=
  let (render, kept) :=
    (documentMeaning ⟨settings, compiled.annotations⟩ compiled.document).run .empty
  (render, kept.fragments)

end Templating.Rendering
