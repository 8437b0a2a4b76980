import Templating.Command.Directory
import Templating.Data.Argument
import Templating.Evaluation.Compiler
import Templating.Evaluation.Instance
import Templating.Rendering.Outline
import Templating.Template.Web
import Templating.Tree.Markup
/-!
# Requests

The two requests of the command line: to compile a template file, and to render
one.  A request is settled by what its file holds; the files that it asks for
are then written.
-/
set_option autoImplicit false

namespace Templating.Command

open Templating.Text Templating.Data Templating.Template Templating.Rendering
open Templating.Evaluation

inductive Emission where
  | render
  | outline
  | all
deriving DecidableEq, Repr

structure CompileRequest where
  input : String
  outDirectory : Option String
  emission : Emission
  overlay : Overlay

structure RenderRequest where
  input : String
  /-- `key=value` pairs. -/
  data : List String
  overlay : Overlay

inductive Request where
  | compile (request : CompileRequest)
  | render (request : RenderRequest)

inductive Fault where
  | unreadable (input : String)
  | notCreated (directory : String)
  | notWritten (path : String)
  | notCompiled (input : String) (cause : SourceFault)
  | notRendered (input : String) (cause : Halt)
  | data (fault : Argument.Fault)

def Fault.message : Fault → String
  | .unreadable input => "failed to read " ++ input
  | .notCreated directory => "failed to create " ++ directory
  | .notWritten path => "failed to write " ++ path
  | .notCompiled input _ => "failed to compile " ++ input
  | .notRendered input _ => "failed to render " ++ input
  | .data fault => fault.message

structure Outcome where
  stdout : String
  stderr : String
  files : List (String × String)

/-! ## Compiling -/

namespace CompileRequest

def errorLine (input : String) (diagnostic : Diagnostic) : String :=
  match diagnostic.span with
  | some span =>
    "error: " ++ diagnostic.message ++ " (" ++ input ++ ":" ++ toString span.start ++ ")\n"
  | none => "error: " ++ diagnostic.message ++ "\n"

def tipLine (diagnostic : Diagnostic) : String := "tip: " ++ diagnostic.message ++ "\n"

/-- The errors of a template with their places, and then its tips. -/
def report (input : String) (diagnostics : List Diagnostic) : String :=
  String.join ((errorsOf diagnostics).map (errorLine input)) ++
    String.join ((tipsOf diagnostics).map tipLine)

def directory (request : CompileRequest) : String :=
  request.outDirectory.getD "target/quill-gen"

def file (request : CompileRequest) (ending content : String) : String × String :=
  (Path.child request.directory (Path.stem request.input ++ ending), content)

def files (request : CompileRequest) (compiled : Compiled) : List (String × String) :=
  (if request.emission = .outline then []
    else [request.file ".render.js" compiled.moduleText]) ++
    (if request.emission = .render then []
      else [request.file ".ast.txt" (compiled.outline?.getD "(empty)\n")])

def outcome (request : CompileRequest) (source : String) : Outcome :=
  let compiled := compile (Web.settings.overlaid request.overlay) source
  let files := request.files compiled
  { stdout := String.join (files.map fun file => "Generated: " ++ file.1 ++ "\n")
    stderr := report request.input compiled.diagnostics, files }

end CompileRequest

/-! ## Rendering -/

namespace RenderRequest

structure Rendered where
  markup : String
  report : String

def rendered (request : RenderRequest) (source : String) : Except Fault Rendered := do
  let functions ←
    (Functions.ofTemplate (Web.settings.overlaid request.overlay) source).mapError
      (Fault.notCompiled request.input)
  let data ← (Argument.record request.data).mapError Fault.data
  let node ← (Instance.new functions data).render.1.mapError (Fault.notRendered request.input)
  pure
    { markup := node.markup
      report := String.join ((errorsOf functions.diagnostics).map fun diagnostic =>
        "error: " ++ diagnostic.message ++ "\n") }

end RenderRequest

/-! ## In a directory -/

/-- Writes files up to the first that cannot be written. -/
def writeFiles (directory : Directory) : List (String × String) → Except Fault Unit × Directory
  | [] => (.ok (), directory)
  | (path, content) :: rest =>
    match directory.write? path content with
    | none => (.error (.notWritten path), directory)
    | some next => writeFiles next rest

def CompileRequest.run (request : CompileRequest) (directory : Directory) :
    Except Fault Outcome × Directory :=
  match directory.read? request.input with
  | none => (.error (.unreadable request.input), directory)
  | some source =>
    if directory.isBlocked request.directory then
      (.error (.notCreated request.directory), directory)
    else
      let outcome := request.outcome source
      let (written, next) := writeFiles directory outcome.files
      (written.map fun _ => outcome, next)

def RenderRequest.run (request : RenderRequest) (directory : Directory) :
    Except Fault RenderRequest.Rendered :=
  match directory.read? request.input with
  | none => .error (.unreadable request.input)
  | some source => request.rendered source

/-- Settles a request in a directory.  Markup is printed on a line of its own. -/
def Request.run (request : Request) (directory : Directory) :
    Except Fault Outcome × Directory :=
  match request with
  | .compile request => request.run directory
  | .render request =>
    ((request.run directory).map fun rendered =>
      ⟨rendered.markup ++ "\n", rendered.report, []⟩, directory)

end Templating.Command
