import Templating.Rendering.Generator
import Templating.Template.Builder
import Templating.Template.Check
/-!
# Compilation

A template is read, analyzed, written as render source and checked.
-/
set_option autoImplicit false

namespace Templating.Rendering

open Templating.Text Templating.Template

structure Compiled where
  document : Document
  annotations : Annotations
  program : Program
  diagnostics : List Diagnostic

namespace Compiled

def render (compiled : Compiled) : String := compiled.program.render.text

def fragments (compiled : Compiled) : List String := compiled.program.fragments.map Code.text

end Compiled

/-- Compiles a template.  Blanks around it are left out, and spans count from
the start of the text that was given. -/
def compile (settings : Settings) (template : String) : Compiled :=
  let source := template.toList
  let leading := byteLength (source.takeWhile isBlank)
  let (document, reading) := Document.parse settings (trimmed template)
  let annotations := if settings.optimizes then document.analyze settings else .empty
  let (program, writing) := generate settings annotations document
  let distance := if settings.reportsSpans then some leading else none
  { document, annotations, program
    diagnostics := (reading ++ writing ++ document.check).map (Diagnostic.relocate distance) }

end Templating.Rendering
