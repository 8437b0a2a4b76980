import Templating.Expression.Syntax
import Templating.Tree.Node
/-!
# Data of a render

What expressions evaluate to: plain values, and the nodes, lists, objects,
listeners and functions that exist only while a render runs.
-/
set_option autoImplicit false

namespace Templating.Evaluation

open Templating.Text Templating.Data Templating.Expression

inductive Datum where
  | plain (value : Value)
  | node (node : Tree.Node)
  | list (items : List Datum)
  /-- The entries in the order in which they were written. -/
  | record (entries : List (String × Datum))
  | listeners (entries : List (String × String))
  /-- A function with the scope in which it was written, innermost binding
  first. -/
  | closure (parameters : List Pattern) (body : Expr) (scope : List (String × Datum))

/-- Bindings of names, innermost first. -/
abbrev Scope := List (String × Datum)

inductive Fault where
  | notCallable (name : String)
  | unknownMethod (method typeName : String)
  | nullAccess (property target : String)
  | illegalArguments (helper expected : String)
  | fragmentNotFound (index : Nat)
  | notANode (found : String)
deriving DecidableEq, Repr

def Fault.message : Fault → String
  | .notCallable name => "`" ++ name ++ "` is not a function."
  | .unknownMethod method typeName =>
    "method `" ++ method ++ "` is not supported on `" ++ typeName ++ "` data."
  | .nullAccess property target => "cannot read property `" ++ property ++ "` of " ++ target ++ "."
  | .illegalArguments helper expected => "`" ++ helper ++ "` expects " ++ expected ++ "."
  | .fragmentNotFound index => "static fragment `" ++ toString index ++ "` not found."
  | .notANode found => "render produced `" ++ found ++ "` instead of a single node."

namespace Datum

instance : Inhabited Datum := ⟨.plain .undefined⟩

def undefined : Datum := .plain .undefined

def ofString (s : String) : Datum := .plain (.string s)

def ofBool (b : Bool) : Datum := .plain (.boolean b)

def ofNumber (x : Float) : Datum := .plain (.number x)

def ofCount (count : Nat) : Datum := .plain (.ofCount count)

def isTruthy : Datum → Bool
  | .plain value => value.isTruthy
  | _ => true

def isNullish : Datum → Bool
  | .plain value => value.isNullish
  | _ => false

mutual

/-- The plain value; what is no data counts as absent. -/
def toValue : Datum → Value
  | .plain value => value
  | .list items => .list (toValues items)
  | .record entries => .ofPairs (toFields entries)
  | .node _ | .listeners _ | .closure _ _ _ => .undefined

def toValues : List Datum → List Value
  | [] => []
  | item :: rest => item.toValue :: toValues rest

def toFields : List (String × Datum) → List (String × Value)
  | [] => []
  | (name, item) :: rest => (name, item.toValue) :: toFields rest

end

def typeOf : Datum → String
  | .plain .undefined => "undefined"
  | .plain (.boolean _) => "boolean"
  | .plain (.number _) => "number"
  | .plain (.string _) => "string"
  | .closure _ _ _ => "function"
  | _ => "object"

def kind : Datum → String
  | .plain value => value.typeName
  | .node _ => "node"
  | .list _ => "array"
  | .record _ | .listeners _ => "object"
  | .closure _ _ _ => "function"

def shown : Option Datum → String
  | some datum => datum.toValue.shown
  | none => ""

def propertyName (key : Datum) : String := key.toValue.asText

/-- The property `name`.  Nothing can be read of what is not there. -/
def member (target : Datum) (name : String) : Except Fault Datum :=
  match target with
  | .plain .undefined => .error (.nullAccess name "undefined")
  | .plain .null => .error (.nullAccess name "null")
  | .plain (.string content) =>
    .ok (if name == "length" then ofCount content.toList.length else undefined)
  | .plain (.list items) =>
    .ok (if name == "length" then ofCount items.length
      else .plain (((Value.list items).member? name).getD .undefined))
  | .plain value => .ok (.plain ((value.member? name).getD .undefined))
  | .list items =>
    .ok (if name == "length" then ofCount items.length
      else ((readIndex? name.toList).bind fun index => items[index]?).getD undefined)
  | .record entries => .ok ((entries.lookup name).getD undefined)
  | .node _ | .listeners _ | .closure _ _ _ => .ok undefined

def memberOrUndefined (target : Datum) (name : String) : Datum :=
  match target.member name with
  | .ok found => found
  | .error _ => undefined

end Datum

def setEntry (name : String) (value : Datum) : List (String × Datum) → List (String × Datum)
  | [] => [(name, value)]
  | (other, held) :: rest =>
    if other = name then (name, value) :: rest else (other, held) :: setEntry name value rest

mutual

def bindPattern (value : Datum) : Pattern → List (String × Datum)
  | .name name => [(name, value)]
  | .record fields => bindFields value fields
  | .list slots => bindSlots value 0 slots

def bindFields (value : Datum) : List (String × Pattern) → List (String × Datum)
  | [] => []
  | (name, target) :: rest =>
    bindPattern (value.memberOrUndefined name) target ++ bindFields value rest

def bindSlots (value : Datum) (position : Nat) : List (Option Pattern) → List (String × Datum)
  | [] => []
  | none :: rest => bindSlots value (position + 1) rest
  | some target :: rest =>
    bindPattern (value.memberOrUndefined (toString position)) target ++
      bindSlots value (position + 1) rest

end

/-- The bindings of parameters to arguments; arguments that are not given are
undefined. -/
def bindParameters : List Pattern → List Datum → List (String × Datum)
  | [], _ => []
  | pattern :: patterns, [] => bindPattern .undefined pattern ++ bindParameters patterns []
  | pattern :: patterns, argument :: arguments =>
    bindPattern argument pattern ++ bindParameters patterns arguments

end Templating.Evaluation
