import Templating.Command.Request
import Templating.Command.Usage
/-!
# Arguments of the command line

A command and its arguments, read from left to right.  An option takes its value
from behind `=` or from the next argument, which must not look like an option
itself; after `--` nothing is an option.
-/
set_option autoImplicit false

namespace Templating.Command

open Templating.Text Templating.Template

/-- What the arguments ask for when they ask for no request. -/
inductive Answer where
  | help (topic : Topic) (isLong : Bool)
  | version
  | misuse
deriving DecidableEq, Repr

inductive Subcommand where
  | compile
  | render
deriving DecidableEq, Repr

def Subcommand.topic : Subcommand → Topic
  | .compile => .compile
  | .render => .render

structure Draft where
  input : Option String
  outDirectory : Option String
  emission : Option Emission
  data : List String
  skipsAnalysis : Bool
  keepsComments : Bool
  condenses : Bool
  reportsSpans : Bool

def Draft.empty : Draft :=
  { input := none, outDirectory := none, emission := none, data := [], skipsAnalysis := false
    keepsComments := false, condenses := false, reportsSpans := false }

namespace Draft

/-- A path is not empty, and there is one. -/
def setInput (draft : Draft) (path : String) : Except Answer Draft :=
  if path == "" || draft.input.isSome then .error .misuse
  else .ok { draft with input := some path }

def setOutDirectory (draft : Draft) (path : String) : Except Answer Draft :=
  if path == "" || draft.outDirectory.isSome then .error .misuse
  else .ok { draft with outDirectory := some path }

def setEmission (draft : Draft) (name : String) : Except Answer Draft :=
  let emission? : Option Emission :=
    match name with
    | "render" => some .render
    | "ast" => some .outline
    | "all" => some .all
    | _ => none
  match emission?, draft.emission with
  | some emission, none => .ok { draft with emission := some emission }
  | _, _ => .error .misuse

def addData (draft : Draft) (pair : String) : Except Answer Draft :=
  .ok { draft with data := draft.data ++ [pair] }

/-- A switch is given once. -/
def setSwitch (draft : Draft) (name : String) : Except Answer Draft :=
  match name with
  | "no-optimize" =>
    if draft.skipsAnalysis then .error .misuse else .ok { draft with skipsAnalysis := true }
  | "comments" =>
    if draft.keepsComments then .error .misuse else .ok { draft with keepsComments := true }
  | "condense" =>
    if draft.condenses then .error .misuse else .ok { draft with condenses := true }
  | "source-range" =>
    if draft.reportsSpans then .error .misuse else .ok { draft with reportsSpans := true }
  | _ => .error .misuse

def overlay (draft : Draft) : Overlay :=
  { Overlay.empty with
    optimizes := some !draft.skipsAnalysis
    keepsComments := some draft.keepsComments
    reportsSpans := some draft.reportsSpans
    whitespace := if draft.condenses then some .condense else none }

def request (draft : Draft) (subcommand : Subcommand) : Except Answer Request :=
  match draft.input with
  | none => .error .misuse
  | some input =>
    match subcommand with
    | .compile =>
      .ok (.compile
        { input, outDirectory := draft.outDirectory, emission := draft.emission.getD .render
          overlay := draft.overlay })
    | .render => .ok (.render { input, data := draft.data, overlay := draft.overlay })

end Draft

/-- How a long option of a command takes its value; a switch takes none. -/
def valueOption? (subcommand : Subcommand) (name : String) :
    Option (Draft → String → Except Answer Draft) :=
  match subcommand, name with
  | .compile, "out-dir" => some Draft.setOutDirectory
  | .compile, "emit" => some Draft.setEmission
  | .render, "data" => some Draft.addData
  | _, _ => none

/-- The argument is no option; a single dash is none. -/
def isValue (argument : String) : Bool :=
  argument == "-" || !startsWith ['-'] argument.toList

def takeNext (change : String → Except Answer Draft) : List String →
    Except Answer (Draft × List String)
  | argument :: rest =>
    if isValue argument then (change argument).map fun draft => (draft, rest)
    else .error .misuse
  | [] => .error .misuse

def readLong (subcommand : Subcommand) (draft : Draft) (option : List Char)
    (rest : List String) : Except Answer (Draft × List String) :=
  let (name, value?) :=
    match cutAt? '=' option with
    | some (name, value) => (String.ofList name, some (String.ofList value))
    | none => (String.ofList option, none)
  match valueOption? subcommand name, value? with
  | some change, some value => (change draft value).map fun draft => (draft, rest)
  | some change, none => takeNext (change draft) rest
  | none, some _ => .error .misuse
  | none, none =>
    if name == "help" then .error (.help subcommand.topic true)
    else (draft.setSwitch name).map fun draft => (draft, rest)

def readShort (subcommand : Subcommand) (draft : Draft) (option : List Char)
    (rest : List String) : Except Answer (Draft × List String) :=
  match option with
  | 'h' :: _ => .error (.help subcommand.topic false)
  | 'd' :: value =>
    if subcommand = .render then
      match value with
      | [] => takeNext draft.addData rest
      | '=' :: value => (draft.addData (String.ofList value)).map fun draft => (draft, rest)
      | value => (draft.addData (String.ofList value)).map fun draft => (draft, rest)
    else .error .misuse
  | _ => .error .misuse

def readArgument (subcommand : Subcommand) (draft : Draft) (argument : String)
    (rest : List String) : Except Answer (Draft × List String) :=
  if isValue argument then (draft.setInput argument).map fun draft => (draft, rest)
  else
    match argument.toList with
    | '-' :: '-' :: option => readLong subcommand draft option rest
    | _ :: option => readShort subcommand draft option rest
    | [] => .error .misuse

/-- Reads the arguments of a command.  Each step takes at least one of them, so
that `fuel` need not be more than their number. -/
def readArguments (subcommand : Subcommand) : Nat → Draft → List String → Except Answer Draft
  | _, draft, [] => .ok draft
  | _, draft, "--" :: rest => rest.foldlM Draft.setInput draft
  | 0, _, _ :: _ => .error .misuse
  | fuel + 1, draft, argument :: rest => do
    let (next, remaining) ← readArgument subcommand draft argument rest
    readArguments subcommand fuel next remaining

def helpAnswer : List String → Answer
  | [] => .help .program true
  | [name] =>
    match Topic.ofName? name with
    | some topic => .help topic true
    | none => .misuse
  | _ => .misuse

def optionAnswer (option : String) : Answer :=
  match option.toList with
  | '-' :: 'h' :: _ => .help .program false
  | '-' :: 'V' :: _ => .version
  | _ =>
    if option == "--help" then .help .program true
    else if option == "--version" then .version
    else .misuse

def readRequest : List String → Except Answer Request
  | "compile" :: rest => do (← readArguments .compile rest.length .empty rest).request .compile
  | "render" :: rest => do (← readArguments .render rest.length .empty rest).request .render
  | "help" :: names => .error (helpAnswer names)
  | option :: _ => .error (optionAnswer option)
  | [] => .error .misuse

namespace Answer

def exitCode : Answer → Nat
  | .help _ _ | .version => 0
  | .misuse => 2

/-- What the program says; misuse is answered with help on the program. -/
def text : Answer → String
  | .help topic isLong => topic.text isLong
  | .version => versionText
  | .misuse => Topic.program.text false

end Answer

end Templating.Command
