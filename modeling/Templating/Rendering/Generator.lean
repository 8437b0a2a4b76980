import Templating.Rendering.Code
import Templating.Rendering.Listener
import Templating.Template.Analysis
import Templating.Template.AttributeName
/-!
# Render source of a template

An element's source is made from the inside out: its own call first, then one
layer after another for what its head asks of it, such as a loop or a condition.
Layers hand out numbers and keep fragments, so all is written in one order.
-/
set_option autoImplicit false

namespace Templating.Rendering

open Templating.Text Templating.Template

/-- What has been written so far besides the source at hand. -/
structure Draft where
  fragments : List Code
  onceCount : Nat
  diagnostics : List Diagnostic

def Draft.empty : Draft := ⟨[], 0, []⟩

abbrev Gen := StateM Draft

namespace Gen

def report (diagnostics : List Diagnostic) : Gen Unit :=
  modify fun draft => { draft with diagnostics := draft.diagnostics ++ diagnostics }

def keepFragment (code : Code) : Gen Nat := do
  let draft ← get
  set { draft with fragments := draft.fragments ++ [code] }
  return draft.fragments.length

def nextOnce : Gen Nat := do
  let draft ← get
  set { draft with onceCount := draft.onceCount + 1 }
  return draft.onceCount

end Gen

/-- Writes source; the argument holds the keys of the loops around, innermost
first. -/
abbrev Writer := List (Option String) → Gen Code

structure Context where
  settings : Settings
  annotations : Annotations

/-! ## Data objects -/

def attributeEntry (item : Attribute) : String :=
  keyCode item.name item.hasNameExpression ++ ":" ++
    if item.isBound then item.value else Literal.encode item.value

def braced (entries : List String) : String := "\x7b" ++ join "," entries ++ "\x7d"

def attributesCode (items : List Attribute) : String := braced (items.map attributeEntry)

def directiveCode (directive : Directive) : String :=
  "\x7bname:" ++ Literal.encode directive.name ++ ",rawName:" ++ Literal.encode directive.rawName ++
    (if directive.value == "" then ""
      else ",value:(" ++ directive.value ++ "),expression:" ++ Literal.encode directive.value) ++
    (match directive.argument with
      | some argument =>
        ",arg:" ++ if directive.hasArgumentExpression then argument else Literal.encode argument
      | none => "") ++
    (if directive.modifiers.isEmpty then ""
      else
        ",modifiers:" ++
          braced (directive.modifiers.map fun modifier => Literal.encode modifier ++ ":true")) ++
    "\x7d"

/-- The outcome of one directive; without a handler it is kept as it is. -/
def directiveOutcome (settings : Settings) (directive : Directive) : DirectiveOutcome :=
  match settings.directive? directive.name with
  | some handler => handler directive
  | none => { isKept := true, props := [], diagnostics := [] }

def dataField (name code : String) : String := name ++ ":" ++ code ++ ","

def optionalField (name : String) : Option String → String
  | some code => dataField name code
  | none => ""

def refField (inLoop : Bool) (head : Head) : String :=
  match head.ref with
  | some item =>
    dataField "ref" (if item.isBound then item.value else Literal.encode item.value) ++
      if inLoop then "refInFor:true," else ""
  | none => ""

def dataFields (settings : Settings) (inLoop : Bool) (head : Head) : String :=
  let outcomes := head.directives.map fun directive =>
    (directive, directiveOutcome settings directive)
  let kept := (outcomes.filter fun entry => entry.2.isKept).map fun entry => directiveCode entry.1
  let props := head.props.map attributeEntry ++
    (outcomes.flatMap fun entry => entry.2.props).map fun (name, code) =>
      Literal.encode name ++ ":" ++ code
  (if kept.isEmpty then "" else dataField "directives" ("[" ++ join "," kept ++ "]")) ++
    optionalField "key" head.key ++
    refField inLoop head ++
    (if head.isVerbatim then "pre:true," else "") ++
    (if head.component.isSome then dataField "tag" (Literal.encode head.tag) else "") ++
    String.join (settings.extensions.map fun extension => extension.fields head) ++
    (if head.attributes.isEmpty then "" else dataField "attrs" (attributesCode head.attributes)) ++
    (if props.isEmpty then "" else dataField "domProps" (braced props)) ++
    (if head.listeners.isEmpty then "" else dataField "on" (listenersCode head.listeners)) ++
    (if head.nativeListeners.isEmpty then ""
      else dataField "nativeOn" (listenersCode head.nativeListeners)) ++
    optionalField "slot" head.slotTarget

def withoutLastComma (fields : String) : String :=
  match dropTrailing? [','] fields.toList with
  | some shorter => String.ofList shorter
  | none => fields

def dataCode (settings : Settings) (inLoop : Bool) (head : Head) : String :=
  let object := "\x7b" ++ withoutLastComma (dataFields settings inLoop head) ++ "\x7d"
  match head.spread with
  | some spread => "_b(" ++ object ++ ",'" ++ head.tag ++ "',(" ++ spread ++ "),false)"
  | none => object

def directiveDiagnostics (settings : Settings) (head : Head) : List Diagnostic :=
  head.directives.flatMap fun directive => (directiveOutcome settings directive).diagnostics

def writeData (context : Context) (head : Head) (loops : List (Option String)) : Gen String := do
  Gen.report (directiveDiagnostics context.settings head)
  return dataCode context.settings (!loops.isEmpty) head

/-! ## Calls -/

def furtherArgument : Option Code → Code
  | some code => .source "," :: code
  | none => []

/-- A lone child that is repeated stands for the list of all its copies. -/
def isLoneLoop : List Node → Bool
  | [.element only] =>
    only.head.loop.isSome && only.head.tag != "template" && only.head.tag != "slot"
  | _ => false

def writeChildren (children : List Node) (writers : List Writer)
    (loops : List (Option String)) : Gen (Option Code) := do
  let codes ← writers.mapM fun writer => writer loops
  if codes.isEmpty then return none
  else if isLoneLoop children then return some codes.flatten
  else return some (.source "[" :: Code.commaSeparated codes ++ [.source "]"])

def outletCode (head : Head) (children : Option Code) : Code :=
  let props := head.attributes.map fun item =>
    { item with
      name := if item.hasNameExpression then item.name else AttributeName.camelize item.name }
  let fallback : Code :=
    match children with
    | some code => .source ",function()\x7breturn " :: code ++ [.source "\x7d"]
    | none => if !props.isEmpty || head.spread.isSome then [.source ",null"] else []
  let given :=
    if !props.isEmpty then "," ++ attributesCode props
    else if head.spread.isSome then ",null"
    else ""
  let spread := (head.spread.map fun object => "," ++ object).getD ""
  .source ("_t(" ++ head.outletName.getD "\"default\"") :: fallback ++
    [.source (given ++ spread ++ ")")]

def writeCore (context : Context) (head : Head) (children : List Node) (writers : List Writer) :
    Writer := fun loops => do
  if head.tag == "template" && head.slotTarget.isNone && !head.isVerbatim then
    let inner ← writeChildren children writers loops
    return inner.getD (.ofSource "undefined")
  else if head.tag == "slot" then
    let inner ← writeChildren children writers loops
    return outletCode head inner
  else
    let data ← writeData context head loops
    let inner ← writeChildren children writers loops
    match head.component with
    | some component =>
      return .source ("_c(" ++ component ++ "," ++ data) :: furtherArgument inner ++ [.source ")"]
    | none =>
      let given := if data == "\x7b\x7d" then "" else "," ++ data
      return .source ("_c('" ++ head.tag ++ "'" ++ given) :: furtherArgument inner ++ [.source ")"]

/-! ## Layers -/

inductive Layer where
  /-- A fragment of its own. -/
  | hoist
  /-- Rendered once for each key of the loop around. -/
  | once
  | loop
  | choose
deriving DecidableEq, Repr

/-- The layers around an element's own source, outermost first.  A condition is
inside the loop of its element, but around a subtree that is rendered once. -/
def layers (flags : Flags) (head : Head) : List Layer :=
  let choice := if head.condition.isSome then [.choose] else []
  let copies := if head.loop.isSome then [.loop] else []
  (if flags.isRoot then [.hoist] else []) ++
    if head.isOnce then choice ++ (if flags.isInLoop then .once else .hoist) :: copies
    else copies ++ choice

/-- The branches up to the first without a condition, behind the block of the
element itself. -/
def writeBranches (loops : List (Option String)) : List (Option String × Writer) → Gen Code
  | [] => return .ofSource "_e()"
  | (some condition, writer) :: rest => do
    let block ← writer loops
    let others ← writeBranches loops rest
    return .source ("(" ++ condition ++ ")?") :: block ++ .source ":" :: others
  | (none, writer) :: _ => writer loops

def mayBeComponent (settings : Settings) (head : Head) : Bool :=
  head.component.isSome || !settings.platform.isReserved head.tag

def loopDiagnostics (settings : Settings) (head : Head) (header : Loop) : List Diagnostic :=
  if mayBeComponent settings head && head.tag != "slot" && head.tag != "template" &&
      head.key.isNone then
    [.tipAt head.span (.unkeyedComponents head.tag header.item header.source)]
  else []

def Layer.write (context : Context) (head : Head) (branches : List (Option String × Writer))
    (inner : Writer) : Layer → Writer
  | .hoist => fun loops => do
    let code ← inner loops
    let index ← Gen.keepFragment code.wrapped
    return [.fragment index (context.annotations.get head.id).isInLoop]
  | .once => fun loops =>
    match loops.head?.join with
    | some key => do
      let code ← inner loops
      let id ← Gen.nextOnce
      return .source "_o(" :: code ++ [.source ",", .onceId id, .source ("," ++ key ++ ")")]
    | none => do
      Gen.report [.errorAt head.span .unkeyedOnce]
      inner loops
  | .loop => fun loops =>
    match head.loop with
    | some header => do
      Gen.report (loopDiagnostics context.settings head header)
      let body ← inner (head.key :: loops)
      return .source ("_l((" ++ header.source ++ "),function(" ++ join "," header.targets ++
        ")\x7breturn ") :: body ++ [.source "\x7d)"]
    | none => inner loops
  | .choose => fun loops => do
    let block ← inner loops
    let others ← writeBranches loops branches
    return .source ("(" ++ head.condition.getD "true" ++ ")?") :: block ++ .source ":" :: others

/-! ## Trees -/

mutual

def writeElement (context : Context) : Element → Writer
  | ⟨head, children, branches⟩ =>
    (layers (context.annotations.get head.id) head).foldr
      (fun layer inner => layer.write context head (branchWriters context branches) inner)
      (writeCore context head children (nodeWriters context children))

def writeNode (context : Context) : Node → Writer
  | .element element => writeElement context element
  | .text run => fun _ =>
    return .ofSource ("_v(" ++ run.expression?.getD (Literal.encode run.content) ++ ")")
  | .comment comment => fun _ => return .ofSource ("_e(" ++ Literal.encode comment.content ++ ")")

def nodeWriters (context : Context) : List Node → List Writer
  | [] => []
  | node :: rest => writeNode context node :: nodeWriters context rest

def branchWriters (context : Context) : List Branch → List (Option String × Writer)
  | [] => []
  | ⟨condition, block⟩ :: rest =>
    (condition, writeElement context block) :: branchWriters context rest

end

def writeDocument (context : Context) (document : Document) : Gen Code :=
  match document.root with
  | none => return .ofSource "_c(\"div\")"
  | some root =>
    if root.head.tag == "script" then return .ofSource "null" else writeElement context root []

def generate (settings : Settings) (annotations : Annotations) (document : Document) :
    Program × List Diagnostic :=
  let (code, draft) := (writeDocument ⟨settings, annotations⟩ document).run .empty
  (⟨code.wrapped, draft.fragments⟩, draft.diagnostics)

end Templating.Rendering
