import Templating.Data.Dictionary
import Templating.Markup.Token
import Templating.Template.Interpolation
import Templating.Template.Loop
/-!
# Template trees

An element is a head, its children, and the branches that take its place where
its condition fails.  The head holds all that the start tag says.  Every node
has a number of its own, given in the order of the source.
-/
set_option autoImplicit false

namespace Templating.Template

open Templating.Text Templating.Data Templating.Markup

/-- An attribute, or a prop of the element.  The value is literal text, or an
expression where the attribute is bound. -/
structure Attribute where
  name : String
  value : String
  isBound : Bool
  /-- The name is an expression as well. -/
  hasNameExpression : Bool
  span : Span
deriving DecidableEq, Repr

def Attribute.literal (name value : String) (span : Span) : Attribute :=
  ⟨name, value, false, false, span⟩

def Attribute.isDynamic (item : Attribute) : Bool := item.isBound || item.hasNameExpression

structure Listener where
  event : String
  source : String
  modifiers : List String
  hasNameExpression : Bool
  span : Span
deriving DecidableEq, Repr

structure Directive where
  name : String
  rawName : String
  argument : Option String
  hasArgumentExpression : Bool
  modifiers : List String
  value : String
  span : Span
deriving DecidableEq, Repr

structure Head where
  id : Nat
  tag : String
  span : Span
  /-- The attributes of the source that no rule has taken yet. -/
  pending : List SourceAttribute
  /-- All attributes of the source, taken or not. -/
  given : Dictionary (Option String)
  attributes : List Attribute
  props : List Attribute
  listeners : List Listener
  nativeListeners : List Listener
  directives : List Directive
  namespaceName : Option String
  key : Option String
  ref : Option Attribute
  /-- The condition on which the element is rendered. -/
  condition : Option String
  /-- The condition of a branch that has not been joined to its element. -/
  branchCondition : Option String
  /-- A last branch that has not been joined to its element. -/
  isElse : Bool
  loop : Option Loop
  isOnce : Bool
  /-- The element and all below it are taken as they are written. -/
  isVerbatim : Bool
  /-- The expression of the component that the element stands for. -/
  component : Option String
  /-- The expression of the name of an outlet. -/
  outletName : Option String
  /-- The expression of the outlet of the parent into which the element goes. -/
  slotTarget : Option String
  /-- The expression of an object whose fields are attributes. -/
  spread : Option String
  /-- Code owned by extensions. -/
  extensions : Dictionary String
  isForbidden : Bool
deriving DecidableEq, Repr

namespace Head

def new (id : Nat) (tag : String) (attributes : List SourceAttribute) (span : Span) : Head :=
  { id, tag, span, pending := attributes
    given := Dictionary.ofPairs (attributes.map fun item => (item.name, item.value))
    attributes := [], props := [], listeners := [], nativeListeners := [], directives := []
    namespaceName := none, key := none, ref := none, condition := none, branchCondition := none
    isElse := false, loop := none, isOnce := false, isVerbatim := false, component := none
    outletName := none, slotTarget := none, spread := none, extensions := []
    isForbidden := false }

def takeFirst? (accepts : SourceAttribute → Bool) (head : Head) :
    Option (SourceAttribute × Head) :=
  (head.pending.find? accepts).map fun found =>
    (found, { head with pending := head.pending.eraseP accepts })

def take? (name : String) (head : Head) : Option (SourceAttribute × Head) :=
  head.takeFirst? fun item => item.name == name

/-- Takes `:name` or its long form. -/
def takeBinding? (name : String) (head : Head) : Option (SourceAttribute × Head) :=
  head.takeFirst? fun item => item.name == ":" ++ name || item.name == "v-bind:" ++ name

def givenValue? (name : String) (head : Head) : Option String :=
  (Dictionary.find? name head.given).join

def hasBindings (head : Head) : Bool :=
  head.attributes.any Attribute.isDynamic || !head.props.isEmpty || !head.listeners.isEmpty ||
    !head.nativeListeners.isEmpty || !head.directives.isEmpty || head.spread.isSome

def isBranch (head : Head) : Bool := head.branchCondition.isSome || head.isElse

end Head

structure TextRun where
  id : Nat
  content : String
  /-- Empty where the text holds no interpolation. -/
  segments : List Segment
  span : Span
deriving DecidableEq, Repr

def TextRun.isBlankSpace (run : TextRun) : Bool := run.content == " "

def TextRun.expression? (run : TextRun) : Option String :=
  if run.segments.isEmpty then none else some (Segment.concatenation run.segments)

structure Comment where
  id : Nat
  content : String
  span : Span
deriving DecidableEq, Repr

mutual

structure Element where
  head : Head
  children : List Node
  branches : List Branch

inductive Node where
  | element (element : Element)
  | text (run : TextRun)
  | comment (comment : Comment)

structure Branch where
  condition : Option String
  block : Element

end

/-- A template that has been read.  Numbers of nodes are below `nodeCount`. -/
structure Document where
  root : Option Element
  nodeCount : Nat

end Templating.Template
