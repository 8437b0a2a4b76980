import Templating.Expression.Lexical
import Templating.Text.Span
/-!
# Diagnostics

What can be wrong with a template, where, and in which words it is reported.
Reading a template never stops at a problem.
-/
set_option autoImplicit false

namespace Templating.Template

open Templating.Text

/-- The part of a loop header that is not a pattern. -/
inductive LoopVariable where
  | item
  | iterator
deriving DecidableEq, Repr

inductive Problem where
  | malformedTag (source : String)
  | duplicateAttribute (name : String)
  | forbiddenTag (tag : String)
  | strayEndTag (tag : String)
  | unclosedTag (tag : String)
  | severalRoots
  | rootTag (tag : String)
  | rootLoop
  | onlyText
  | textOutsideRoot (content : String)
  | unterminatedInterpolation (closing : String)
  | invalidLoop (header : String)
  | keyedTemplate
  | keyedOutlet
  | scopedSlot (name value : String)
  /-- An interpolation in the value of an attribute; `shown` is the name in the
  advice. -/
  | attributeInterpolation (name value shown : String)
  | emptyBinding (argument : String)
  | misplacedDirective (name : String)
  | textBetweenBranches (content : String)
  /-- A branch without the element that it belongs to, with its condition. -/
  | strayBranch (condition : Option String) (tag : String)
  | unkeyedOnce
  | loopVariable (role : LoopVariable) (name raw : String)
  | unaryCall (operator raw : String)
  | keyword (word raw : String)
  | imbalance (fault : Expression.Imbalance) (expression raw : String)
  | unsupportedExpression (expression raw : String)
  | conditionOnLoop
  | passivePrevent
  | unkeyedComponents (tag item source : String)
  /-- A message of an extension. -/
  | reported (message : String)
deriving DecidableEq, Repr

namespace Problem

def invalidExpression (reason expression raw : String) : String :=
  "invalid expression: " ++ reason ++ " in\n\n    " ++ expression ++ "\n\n  Raw expression: " ++
    trimmed raw ++ "\n"

def message : Problem → String
  | .malformedTag source => "Malformed tag at end of template: \"" ++ source ++ "\""
  | .duplicateAttribute name => "duplicate attribute: " ++ name
  | .forbiddenTag tag =>
    "Templates should only be responsible for mapping the state to the UI. " ++
      "Avoid placing tags with side-effects in your templates, such as <" ++ tag ++ ">, " ++
      "as they will not be parsed."
  | .strayEndTag tag => "stray end tag </" ++ tag ++ "> has no matching start tag."
  | .unclosedTag tag => "tag <" ++ tag ++ "> has no matching end tag."
  | .severalRoots =>
    "Component template should contain exactly one root element. " ++
      "If you are using v-if on multiple elements, use v-else-if to chain them instead."
  | .rootTag tag =>
    "Cannot use <" ++ tag ++
      "> as component root element because it may contain multiple nodes."
  | .rootLoop =>
    "Cannot use v-for on stateful component root element because it renders multiple elements."
  | .onlyText => "Component template requires a root element, rather than just text."
  | .textOutsideRoot content => "text \"" ++ content ++ "\" outside root element will be ignored."
  | .unterminatedInterpolation closing =>
    "unterminated interpolation: missing closing \"" ++ closing ++ "\""
  | .invalidLoop header => "Invalid v-for expression: " ++ header
  | .keyedTemplate =>
    "<template> cannot be keyed. Place the key on real elements instead."
  | .keyedOutlet =>
    "`key` does not work on <slot> because slots are abstract outlets " ++
      "and can possibly expand into multiple elements. " ++
      "Use the key on a wrapping element instead."
  | .scopedSlot name value =>
    name ++ "=\"" ++ value ++ "\": scoped slot bindings are not supported; " ++
      "pass data through props instead."
  | .attributeInterpolation name value shown =>
    name ++ "=\"" ++ value ++ "\": Interpolation inside attributes has been removed. " ++
      "Use v-bind or the colon shorthand instead. For example, instead of <div " ++ shown ++
      "=\"\x7b\x7b val \x7d\x7d\">, use <div :" ++ shown ++ "=\"val\">."
  | .emptyBinding argument =>
    "The value for a v-bind expression cannot be empty. Found in \"v-bind:" ++ argument ++ "\""
  | .misplacedDirective name => name ++ " is only allowed on components or <template>."
  | .textBetweenBranches content =>
    "text \"" ++ content ++ "\" between v-if and v-else(-if) will be ignored."
  | .strayBranch condition tag =>
    let directive :=
      match condition with
      | some expression => "else-if=\"" ++ expression ++ "\""
      | none => "else"
    "v-" ++ directive ++ " used on element <" ++ tag ++ "> without corresponding v-if."
  | .unkeyedOnce => "v-once can only be used inside v-for that is keyed."
  | .loopVariable role name raw =>
    let kind :=
      match role with
      | .item => "alias"
      | .iterator => "iterator"
    "invalid v-for " ++ kind ++ " \"" ++ name ++ "\" in expression: " ++ trimmed raw
  | .unaryCall operator raw =>
    "avoid using JavaScript unary operator as property name: \"" ++ operator ++
      "\" in expression " ++ trimmed raw
  | .keyword word raw =>
    "avoid using JavaScript keyword as property name: \"" ++ word ++
      "\"\n  Raw expression: " ++ trimmed raw
  | .imbalance fault expression raw => invalidExpression fault.message expression raw
  | .unsupportedExpression expression raw => invalidExpression "unsupported syntax" expression raw
  | .conditionOnLoop =>
    "v-for has higher priority than v-if on the same element; " ++
      "move v-if to a wrapper element or filter the list instead."
  | .passivePrevent =>
    "passive and prevent can't be used together. Passive handler can't prevent default event."
  | .unkeyedComponents tag item source =>
    "<" ++ tag ++ " v-for=\"" ++ item ++ " in " ++ source ++
      "\">: component lists rendered with v-for should have explicit keys."
  | .reported message => message

end Problem

inductive Severity where
  | error
  | tip
deriving DecidableEq, Repr

structure Diagnostic where
  severity : Severity
  problem : Problem
  span : Option Span
deriving DecidableEq, Repr

namespace Diagnostic

def errorAt (span : Span) (problem : Problem) : Diagnostic := ⟨.error, problem, some span⟩

def tipAt (span : Span) (problem : Problem) : Diagnostic := ⟨.tip, problem, some span⟩

def message (diagnostic : Diagnostic) : String := diagnostic.problem.message

/-- With a distance the span is moved by it; without one it is dropped. -/
def relocate (distance : Option Nat) (diagnostic : Diagnostic) : Diagnostic :=
  { diagnostic with
    span := distance.bind fun bytes => diagnostic.span.map fun span => span.shift bytes }

def isError (diagnostic : Diagnostic) : Bool := diagnostic.severity == .error

end Diagnostic

def errorsOf (diagnostics : List Diagnostic) : List Diagnostic :=
  diagnostics.filter Diagnostic.isError

def tipsOf (diagnostics : List Diagnostic) : List Diagnostic :=
  diagnostics.filter fun diagnostic => !diagnostic.isError

end Templating.Template
