import Templating.Markup.Vocabulary
import Templating.Template.AttributeName
import Templating.Template.Settings
import Templating.Template.Styling
/-!
# The web platform

The rules of HTML on tags, the extensions for classes and styles, and the
directives that code generation resolves by itself.
-/
set_option autoImplicit false

namespace Templating.Template.Web

open Templating.Text Templating.Data Templating.Markup

def platform : Platform :=
  { isReserved := Vocabulary.isReserved, isUnary := Vocabulary.isUnary
    mayStayOpen := Vocabulary.mayStayOpen, isNonPhrasing := Vocabulary.isNonPhrasing
    isPreformatted := Vocabulary.isPreformatted, mustUseProp := Vocabulary.mustUseProp
    namespaceOf := Vocabulary.namespaceOf }

/-- Takes the attribute `name`, whose code goes under `staticKey`, and the
binding of the same name, whose code goes under `name`. -/
def takeBoth (name staticKey : String) (staticCode boundCode : String → String)
    (delimiters : Delimiters) (head : Head) : Head × List Diagnostic :=
  let (afterStatic, diagnostics) : Head × List Diagnostic :=
    match head.take? name with
    | none => (head, [])
    | some (item, rest) =>
      let value := item.value.getD ""
      ({ rest with extensions := Dictionary.insert staticKey (staticCode value) rest.extensions },
        if hasInterpolation delimiters value then
          [.errorAt item.span (.attributeInterpolation name value name)]
        else [])
  match afterStatic.takeBinding? name with
  | none => (afterStatic, diagnostics)
  | some (item, rest) =>
    ({ rest with
        extensions := Dictionary.insert name (boundCode (item.value.getD "")) rest.extensions },
      diagnostics)

def fieldCode (name : String) (head : Head) : String :=
  match Dictionary.find? name head.extensions with
  | some code => name ++ ":" ++ code ++ ","
  | none => ""

/-- Class names separated by single spaces, as a literal. -/
def classCode (value : String) : String :=
  Literal.encode (join " " ((words value.toList).map String.ofList))

def styleCode (value : String) : String :=
  "\x7b" ++
    join "," ((parseStyle value).map fun (name, given) =>
      Literal.encode name ++ ":" ++ Literal.encode given) ++ "\x7d"

def classExtension : Extension :=
  { name := "class", staticKeys := ["staticClass"]
    transform := takeBoth "class" "staticClass" classCode id
    fields := fun head => fieldCode "staticClass" head ++ fieldCode "class" head }

def styleExtension : Extension :=
  { name := "style", staticKeys := ["staticStyle"]
    transform := takeBoth "style" "staticStyle" styleCode fun value => "(" ++ value ++ ")"
    fields := fun head => fieldCode "staticStyle" head ++ fieldCode "style" head }

/-- The directive sets one DOM prop to the text of its value. -/
def propDirective (prop : String) : DirectiveHandler := fun directive =>
  { isKept := false, diagnostics := []
    props := if directive.value == "" then [] else [(prop, "_s(" ++ directive.value ++ ")")] }

/-- The directive means something only before compilation. -/
def droppedDirective : DirectiveHandler := fun _ =>
  { isKept := false, props := [], diagnostics := [] }

def settings : Settings :=
  { Settings.neutral with
    platform := platform
    extensions := [classExtension, styleExtension]
    directives := Dictionary.ofPairs
      [("cloak", droppedDirective), ("text", propDirective "textContent"),
        ("html", propDirective "innerHTML")] }

end Templating.Template.Web
