import Templating.Evaluation.Datum
import Templating.Evaluation.Operator
import Templating.Text.Casing
/-!
# Methods of data

The methods that expressions may call on texts, lists and numbers, and the
functions that are there without being data.
-/
set_option autoImplicit false

namespace Templating.Evaluation

open Templating.Text Templating.Data

def argumentText (arguments : List Value) : String := (arguments.head?.map Value.asText).getD ""

/-- A position in a list of `length` items; from the end where it is negative,
and the last possible one where it is no number. -/
def clampPosition (length : Nat) (default : Nat) (argument : Option Value) : Nat :=
  match argument.filter fun value => !value.isNullish with
  | none => default
  | some value =>
    let x := value.toNumber
    let size := Float.ofNat length
    if x.isNaN then length
    else if x < 0 then (if size + x < 0 then 0 else Number.wholePart (size + x))
    else if size < x then length
    else Number.wholePart x

def textMethod (content : List Char) (method : String) (arguments : List Value) : Option Value :=
  let needle := (argumentText arguments).toList
  match method with
  | "toUpperCase" => some (.string (String.ofList (upper content)))
  | "toLowerCase" => some (.string (String.ofList (lower content)))
  | "trim" => some (.string (String.ofList (trim content)))
  | "includes" => some (.boolean (contains needle content))
  | "startsWith" => some (.boolean (startsWith needle content))
  | "endsWith" => some (.boolean (endsWith needle content))
  | "indexOf" =>
    match breakAt? needle content with
    | some (before, _) => some (.ofCount before.length)
    | none => some (.number (-1))
  | "split" =>
    let parts := if needle.isEmpty then content.map fun c => [c] else splitAll needle content
    some (.list (parts.map fun part => .string (String.ofList part)))
  | _ => none

def listMethod (items : List Value) (method : String) (arguments : List Value) : Option Value :=
  match method with
  | "join" =>
    let separator :=
      match arguments.head? with
      | none | some .undefined => ","
      | some value => value.asText
    some (.string (join separator (items.map Value.shown)))
  | "includes" =>
    some (.boolean (arguments.head?.any fun needle => items.any (strictEqual · needle)))
  | "indexOf" =>
    match arguments.head?.bind fun needle => items.findIdx? (strictEqual · needle) with
    | some position => some (.ofCount position)
    | none => some (.number (-1))
  | "slice" =>
    let start := clampPosition items.length 0 arguments[0]?
    let stop := clampPosition items.length items.length arguments[1]?
    some (.list ((items.take stop).drop start))
  | _ => none

/-- A number with as many places as the argument asks for, at most a hundred. -/
def fixedText (x : Float) (arguments : List Value) : Except Fault Value :=
  let asked := (arguments.head?.map Value.toNumber).getD 0
  let places := if asked.isNaN then 0 else asked
  if -1 < places && places < 101 then
    .ok (.string (Number.fixed (Number.wholePart places.abs) x))
  else .error (.illegalArguments "toFixed" "a digit count between 0 and 100")

def callMethod (target : Value) (method : String) (arguments : List Value) :
    Except Fault Value :=
  let unknown : Except Fault Value := .error (.unknownMethod method target.typeName)
  if method == "toString" then .ok (.string target.asText)
  else
    match target with
    | .string content =>
      match textMethod content.toList method arguments with
      | some result => .ok result
      | none => unknown
    | .list items =>
      match listMethod items method arguments with
      | some result => .ok result
      | none => unknown
    | .number x => if method == "toFixed" then fixedText x arguments else unknown
    | _ => unknown

/-- Functions that are there unless data or a binding hides them. -/
def callGlobal (name : String) (arguments : List Value) : Except Fault Value :=
  let first := arguments.head?.getD .undefined
  match name with
  | "String" => .ok (.string first.asText)
  | "Number" => .ok (.number first.toNumber)
  | "Boolean" => .ok (.boolean first.isTruthy)
  | _ => .error (.notCallable name)

end Templating.Evaluation
