import Templating.Command.Arguments
/-!
# The program

Reads the template file, settles the request and writes what it asks for.
-/
set_option autoImplicit false

namespace Templating.Command

/-- What lies behind a failure, if more is known than its message says. -/
def causeText : Fault → String
  | .notCompiled _ cause => "\n\nCaused by:\n    " ++ cause.message
  | .notRendered _ (.fault cause) => "\n\nCaused by:\n    " ++ cause.message
  | .notRendered _ .tooDeep => "\n\nCaused by:\n    calls are nested too deeply"
  | _ => ""

def reportFailure (fault : Fault) : IO UInt32 := do
  IO.eprintln ("Error: " ++ fault.message ++ causeText fault)
  return 1

def readFile? (path : String) : IO (Option String) := do
  try
    return some (← IO.FS.readFile path)
  catch _ =>
    return none

def succeeds (action : IO Unit) : IO Bool := do
  try
    action
    return true
  catch _ =>
    return false

def runCompile (request : CompileRequest) : IO UInt32 := do
  let some source ← readFile? request.input | reportFailure (.unreadable request.input)
  let outcome := request.outcome source
  IO.eprint outcome.stderr
  let directory := request.directory
  if directory != "" && !(← succeeds (IO.FS.createDirAll directory)) then
    return ← reportFailure (.notCreated directory)
  for (path, content) in outcome.files do
    if !(← succeeds (IO.FS.writeFile path content)) then
      return ← reportFailure (.notWritten path)
  IO.print outcome.stdout
  return 0

def runRender (request : RenderRequest) : IO UInt32 := do
  let some source ← readFile? request.input | reportFailure (.unreadable request.input)
  match request.rendered source with
  | .error fault => reportFailure fault
  | .ok rendered =>
    IO.eprint rendered.report
    IO.println rendered.markup
    return 0

def runArguments (arguments : List String) : IO UInt32 := do
  match readRequest arguments with
  | .ok (.compile request) => runCompile request
  | .ok (.render request) => runRender request
  | .error answer =>
    if answer = .misuse then IO.eprint answer.text else IO.print answer.text
    return answer.exitCode.toUInt32

end Templating.Command

def main (arguments : List String) : IO UInt32 := Templating.Command.runArguments arguments
