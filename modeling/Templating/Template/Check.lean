import Templating.Expression.Grammar
import Templating.Template.AttributeName
import Templating.Template.Element
import Templating.Template.Diagnostic
/-!
# Checking captured expressions

The expressions of a template become part of render source as they are written.
What would break that source is reported here.  Listeners stay source and get
only the checks that need no grammar.
-/
set_option autoImplicit false

namespace Templating.Template

open Templating.Text Templating.Expression

/-- A keyword in place of a name, or what is left unmatched. -/
def lexicalProblem? (expression raw : String) : Option Problem :=
  match misusedKeyword? expression with
  | some word => some (.keyword word raw)
  | none => (imbalance? expression).map fun fault => .imbalance fault expression raw

def expressionProblems (expression raw : String) : List Problem :=
  match lexicalProblem? expression raw with
  | some problem => [problem]
  | none =>
    if (parseExpression? expression).isSome then [] else [.unsupportedExpression expression raw]

def listenerProblems (source raw : String) : List Problem :=
  ((unaryCall? source).map fun operator => Problem.unaryCall operator raw).toList ++
    (lexicalProblem? source raw).toList

def variableProblems (role : LoopVariable) (raw : String) (name : String) : List Problem :=
  if (parsePattern? name).isSome then [] else [.loopVariable role name raw]

def loopProblems (raw : String) (loop : Loop) : List Problem :=
  expressionProblems loop.source raw ++ variableProblems .item raw loop.item ++
    loop.first.toList.flatMap (variableProblems .iterator raw) ++
    loop.second.toList.flatMap (variableProblems .iterator raw)

def attributeProblems (head : Head) (name value : String) : List Problem :=
  let raw := name ++ "=\"" ++ value ++ "\""
  let startsWith (lead : String) : Bool := (AttributeName.after? lead name).isSome
  if value == "" || !AttributeName.isDirective name then []
  else if name == "v-for" then head.loop.toList.flatMap (loopProblems raw)
  else if name == "v-slot" || startsWith "v-slot:" || startsWith "#" then []
  else if startsWith "@" || startsWith "v-on:" then listenerProblems value raw
  else expressionProblems value raw

def Head.check (head : Head) : List Diagnostic :=
  (head.given.flatMap fun (name, value) => attributeProblems head name (value.getD "")).map
    (.errorAt head.span)

def Segment.problems (content : String) : Segment → List Problem
  | .literal _ => []
  | .binding expression => expressionProblems expression content

def TextRun.check (run : TextRun) : List Diagnostic :=
  (run.segments.flatMap (Segment.problems run.content)).map (.errorAt run.span)

mutual

/-- What is wrong with the element, its children and its branches.  Nothing is
where all is taken as it is written. -/
def Element.check : Element → List Diagnostic
  | ⟨head, children, branches⟩ =>
    if head.isVerbatim then []
    else head.check ++ checkNodes children ++ checkBranches branches

def Node.check : Node → List Diagnostic
  | .element element => element.check
  | .text run => run.check
  | .comment _ => []

def checkNodes : List Node → List Diagnostic
  | [] => []
  | node :: rest => node.check ++ checkNodes rest

def checkBranches : List Branch → List Diagnostic
  | [] => []
  | ⟨_, block⟩ :: rest => block.check ++ checkBranches rest

end

def Document.check (document : Document) : List Diagnostic :=
  (document.root.map Element.check).getD []

end Templating.Template
