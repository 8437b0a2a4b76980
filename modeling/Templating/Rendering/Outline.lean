import Templating.Rendering.Compilation
/-!
# Outlines

A line for each node of a template, with what shapes the tree and what the
analysis found.
-/
set_option autoImplicit false

namespace Templating.Rendering

open Templating.Text Templating.Template

def margin (depth : Nat) : String := repeated "  " depth

def headOutline (annotations : Annotations) (head : Head) : String :=
  let flags := annotations.get head.id
  "<" ++ head.tag ++ ">" ++
    (match head.condition with
      | some expression => " if=" ++ expression
      | none => "") ++
    (match head.loop with
      | some loop => " for=" ++ loop.item ++ " in " ++ loop.source
      | none => "") ++
    (if head.isOnce then " once" else "") ++
    (if flags.isRoot then " [static root]" else if flags.isStatic then " [static]" else "") ++
    (if flags.isInLoop then " [in for]" else "")

def branchLabel : Option String → String
  | some expression => "else-if=" ++ expression
  | none => "else"

mutual

def elementOutline (annotations : Annotations) (depth : Nat) : Element → String
  | ⟨head, children, branches⟩ =>
    margin depth ++ headOutline annotations head ++ "\n" ++
      nodesOutline annotations (depth + 1) children ++ branchesOutline annotations depth branches

def nodeOutline (annotations : Annotations) (depth : Nat) : Node → String
  | .element element => elementOutline annotations depth element
  | .text run =>
    let kind := if run.segments.isEmpty then "text " else "expr "
    margin depth ++ kind ++ Quoted.encode run.content ++ "\n"
  | .comment comment => margin depth ++ "comment " ++ Quoted.encode comment.content ++ "\n"

def nodesOutline (annotations : Annotations) (depth : Nat) : List Node → String
  | [] => ""
  | node :: rest => nodeOutline annotations depth node ++ nodesOutline annotations depth rest

def branchesOutline (annotations : Annotations) (depth : Nat) : List Branch → String
  | [] => ""
  | ⟨condition, block⟩ :: rest =>
    margin depth ++ branchLabel condition ++ ":\n" ++
      elementOutline annotations (depth + 1) block ++ branchesOutline annotations depth rest

end

namespace Compiled

def outline? (compiled : Compiled) : Option String :=
  compiled.document.root.map (elementOutline compiled.annotations 0)

def fragmentLine (source : String) : String := "\n  function () \x7b " ++ source ++ " \x7d,"

/-- A module that exports the render function and those of the fragments. -/
def moduleText (compiled : Compiled) : String :=
  "export function render() \x7b\n  " ++ compiled.render ++ "\n\x7d\n" ++
    "export const staticRenderFns = [" ++ String.join (compiled.fragments.map fragmentLine) ++
    (if compiled.fragments.isEmpty then "" else "\n") ++ "];\n"

end Compiled

end Templating.Rendering
