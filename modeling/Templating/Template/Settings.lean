import Templating.Template.Diagnostic
import Templating.Template.Element
import Templating.Text.Quoted
/-!
# Settings

How templates are read and compiled: the platform's rules on tags, extensions,
handlers of directives, and switches.  An overlay changes settings for one
compilation.
-/
set_option autoImplicit false

namespace Templating.Template

open Templating.Text Templating.Data

structure Platform where
  isReserved : String → Bool
  isUnary : String → Bool
  mayStayOpen : String → Bool
  isNonPhrasing : String → Bool
  isPreformatted : String → Bool
  /-- By tag, type attribute and name of the attribute. -/
  mustUseProp : String → Option String → String → Bool
  namespaceOf : String → Option String

/-- Every tag is reserved, and no tag has rules of its own. -/
def Platform.neutral : Platform :=
  { isReserved := fun _ => true, isUnary := fun _ => false, mayStayOpen := fun _ => false
    isNonPhrasing := fun _ => false, isPreformatted := fun _ => false
    mustUseProp := fun _ _ _ => false, namespaceOf := fun _ => none }

/-- An extension takes attributes from elements and adds fields to their data. -/
structure Extension where
  name : String
  /-- The keys among a head's extensions that do not depend on data. -/
  staticKeys : List String
  transform : Delimiters → Head → Head × List Diagnostic
  /-- Fields of the data object, each with a comma after it. -/
  fields : Head → String

/-- What becomes of a directive when code is generated for its element. -/
structure DirectiveOutcome where
  /-- The directive is also needed after rendering. -/
  isKept : Bool
  /-- DOM props by name, with the source of their values. -/
  props : List (String × String)
  diagnostics : List Diagnostic

abbrev DirectiveHandler := Directive → DirectiveOutcome

inductive Whitespace where
  | preserve
  | condense
deriving DecidableEq, Repr

def Whitespace.name : Whitespace → String
  | .preserve => "Preserve"
  | .condense => "Condense"

structure Settings where
  platform : Platform
  extensions : List Extension
  directives : Dictionary DirectiveHandler
  whitespace : Whitespace
  keepsComments : Bool
  delimiters : Delimiters
  optimizes : Bool
  reportsSpans : Bool

def Settings.neutral : Settings :=
  { platform := .neutral, extensions := [], directives := [], whitespace := .preserve
    keepsComments := false, delimiters := .standard, optimizes := true, reportsSpans := false }

/-- Changes to settings; what is absent stays as it is. -/
structure Overlay where
  /-- They run after the extensions of the settings. -/
  extensions : List Extension
  directives : Dictionary DirectiveHandler
  whitespace : Option Whitespace
  keepsComments : Option Bool
  delimiters : Option Delimiters
  optimizes : Option Bool
  reportsSpans : Option Bool

def Overlay.empty : Overlay :=
  { extensions := [], directives := [], whitespace := none, keepsComments := none
    delimiters := none, optimizes := none, reportsSpans := none }

def Overlay.isPlain (overlay : Overlay) : Bool :=
  overlay.extensions.isEmpty && overlay.directives.isEmpty

namespace Settings

def overlaid (settings : Settings) (overlay : Overlay) : Settings :=
  { platform := settings.platform
    extensions := settings.extensions ++ overlay.extensions
    directives := Dictionary.merge settings.directives overlay.directives
    whitespace := overlay.whitespace.getD settings.whitespace
    keepsComments := overlay.keepsComments.getD settings.keepsComments
    delimiters := overlay.delimiters.getD settings.delimiters
    optimizes := overlay.optimizes.getD settings.optimizes
    reportsSpans := overlay.reportsSpans.getD settings.reportsSpans }

def directive? (settings : Settings) (name : String) : Option DirectiveHandler :=
  Dictionary.find? name settings.directives

def extensionNames (settings : Settings) : List String := settings.extensions.map Extension.name

def staticKeys (settings : Settings) : List String :=
  sortedNames (settings.extensions.flatMap Extension.staticKeys)

def quotedList (names : List String) : String :=
  "[" ++ join ", " (names.map Quoted.encode) ++ "]"

def switch (value : Bool) : String := if value then "true" else "false"

def summary (settings : Settings) : String :=
  "BaseOptions \x7b modules: " ++ quotedList settings.extensionNames ++
    ", directives: " ++ quotedList (Dictionary.names settings.directives) ++
    ", whitespace: " ++ settings.whitespace.name ++
    ", comments: " ++ switch settings.keepsComments ++
    ", delimiters: Delimiters \x7b open: " ++ Quoted.encode settings.delimiters.opening ++
    ", close: " ++ Quoted.encode settings.delimiters.closing ++
    " \x7d, optimize: " ++ switch settings.optimizes ++
    ", output_source_range: " ++ switch settings.reportsSpans ++ " \x7d"

end Settings

end Templating.Template
