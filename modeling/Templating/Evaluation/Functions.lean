import Templating.Evaluation.Render
import Templating.Expression.Grammar
import Templating.Rendering.Compilation
/-!
# Functions of a template

Render source and the sources of its fragments, read by the grammar.  Source
that the grammar does not accept makes no functions.
-/
set_option autoImplicit false

namespace Templating.Evaluation

open Templating.Expression Templating.Template

structure SourceFunction where
  source : String
  body : Expr

def SourceFunction.ofSource? (source : String) : Option SourceFunction :=
  (parseProgram? source).map fun body => ⟨source, body⟩

structure Functions where
  render : SourceFunction
  fragments : List SourceFunction
  diagnostics : List Diagnostic

inductive SourceFault where
  | render (source : String)
  | fragment (index : Nat) (source : String)
deriving DecidableEq, Repr

/-- The reason that the grammar gives is left open. -/
def SourceFault.message : SourceFault → String
  | .render source => "failed to compile render function: <syntax>\n\n" ++ source
  | .fragment index source =>
    "failed to compile static render function " ++ toString index ++ ": <syntax>\n\n" ++ source

def fragmentFunctions (index : Nat) : List String → Except SourceFault (List SourceFunction)
  | [] => .ok []
  | source :: rest =>
    match SourceFunction.ofSource? source with
    | none => .error (.fragment index source)
    | some function => (fragmentFunctions (index + 1) rest).map (function :: ·)

namespace Functions

/-- The first source that is no program decides. -/
def ofSources (render : String) (fragments : List String) (diagnostics : List Diagnostic) :
    Except SourceFault Functions :=
  match SourceFunction.ofSource? render with
  | none => .error (.render render)
  | some function =>
    (fragmentFunctions 0 fragments).map fun fragments => ⟨function, fragments, diagnostics⟩

def ofTemplate (settings : Settings) (template : String) : Except SourceFault Functions :=
  let compiled := Rendering.compile settings template
  ofSources compiled.render compiled.fragments compiled.diagnostics

end Functions

end Templating.Evaluation
