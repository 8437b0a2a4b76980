import Templating.Data.Value
/-!
# Data from the command line

`key=value` pairs.  Truth values, `null` and numbers are typed, a text with
commas is a list, and all else is text.
-/
set_option autoImplicit false

namespace Templating.Data.Argument

open Templating.Text

inductive Fault where
  | noEquals (pair : String)
  | emptyKey (pair : String)

def Fault.message : Fault → String
  | .noEquals pair => "expected key=value, got `" ++ pair ++ "`"
  | .emptyKey pair => "empty key in `" ++ pair ++ "`"

def scalar (source : List Char) : Value :=
  let text := String.ofList (trim source)
  if text == "true" then .boolean true
  else if text == "false" then .boolean false
  else if text == "null" then .null
  else
    match Number.read? text.toList with
    | some number => .number number
    | none => .string text

def entry (pair : String) : Except Fault (String × Value) :=
  match cutAt? '=' pair.toList with
  | none => .error (.noEquals pair)
  | some (key, source) =>
    let name := String.ofList (trim key)
    if name == "" then .error (.emptyKey pair)
    else if source.contains ',' then .ok (name, .list ((splitAt ',' source).map scalar))
    else .ok (name, scalar source)

/-- The record of all pairs; the first pair at fault decides. -/
def record (pairs : List String) : Except Fault Value :=
  (pairs.mapM entry).map Value.ofPairs

end Templating.Data.Argument
