import Templating.Data.Dictionary
import Templating.Number.Decimal
import Templating.Number.Reading
/-!
# Values

The data that a template is rendered with, and its coercions.
-/
set_option autoImplicit false

namespace Templating.Data

open Templating.Text

inductive Value where
  | undefined
  | null
  | boolean (value : Bool)
  | number (value : Float)
  | string (value : String)
  | list (items : List Value)
  /-- The fields in ascending order of their names. -/
  | record (fields : List (String × Value))
deriving Inhabited

namespace Value

def ofCount (count : Nat) : Value := .number (Float.ofNat count)

def ofPairs (pairs : List (String × Value)) : Value := .record (Dictionary.ofPairs pairs)

def isNullish : Value → Bool
  | .undefined | .null => true
  | _ => false

def isTruthy : Value → Bool
  | .undefined | .null => false
  | .boolean value => value
  | .number value => value != 0 && !value.isNaN
  | .string value => value != ""
  | .list _ | .record _ => true

def typeName : Value → String
  | .undefined => "undefined"
  | .null => "null"
  | .boolean _ => "boolean"
  | .number _ => "number"
  | .string _ => "string"
  | .list _ => "array"
  | .record _ => "object"

/-- A field of a record or an item of a list; positions are written in
decimal. -/
def member? (name : String) : Value → Option Value
  | .record fields => Dictionary.find? name fields
  | .list items => (readIndex? name.toList).bind fun index => items[index]?
  | _ => none

def toNumber : Value → Float
  | .undefined => Number.notANumber
  | .null => 0
  | .boolean value => if value then 1 else 0
  | .number value => value
  | .string value => Number.ofText value
  | .list _ | .record _ => Number.notANumber

mutual

/-- Equality of two values; numbers compare as numbers, so that no number that
is not one equals itself. -/
def equals : Value → Value → Bool
  | .undefined, .undefined => true
  | .null, .null => true
  | .boolean left, .boolean right => left == right
  | .number left, .number right => left == right
  | .string left, .string right => left == right
  | .list left, .list right => equalItems left right
  | .record left, .record right => equalFields left right
  | _, _ => false

def equalItems : List Value → List Value → Bool
  | [], [] => true
  | left :: lefts, right :: rights => equals left right && equalItems lefts rights
  | _, _ => false

def equalFields : List (String × Value) → List (String × Value) → Bool
  | [], [] => true
  | (name, left) :: lefts, (other, right) :: rights =>
    name == other && equals left right && equalFields lefts rights
  | _, _ => false

end

mutual

/-- The text of a value inside other text: items are joined by commas. -/
def asText : Value → String
  | .undefined => "undefined"
  | .null => "null"
  | .boolean value => if value then "true" else "false"
  | .number value => Number.display value
  | .string value => value
  | .list items => join "," (itemTexts items)
  | .record _ => "[object Object]"

def itemTexts : List Value → List String
  | [] => []
  | item :: rest => (if item.isNullish then "" else item.asText) :: itemTexts rest

end

def quotedChar (c : Char) : List Char :=
  if c = '\x22' then ['\\', '\x22']
  else if c = '\\' then ['\\', '\\']
  else if c = '\n' then ['\\', 'n']
  else [c]

def quoted (s : String) : String :=
  String.ofList ('\x22' :: s.toList.flatMap quotedChar ++ ['\x22'])

def indentation (depth : Nat) : String := repeated "  " depth

mutual

def structured (depth : Nat) : Value → String
  | .undefined | .null => "null"
  | .boolean value => if value then "true" else "false"
  | .number value => Number.display value
  | .string value => quoted value
  | .list items =>
    if items.isEmpty then "[]"
    else "[\n" ++ structuredItems (depth + 1) items ++ indentation depth ++ "]"
  | .record fields =>
    if fields.isEmpty then "\x7b\x7d"
    else "\x7b\n" ++ structuredFields (depth + 1) fields ++ indentation depth ++ "\x7d"

def structuredItems (depth : Nat) : List Value → String
  | [] => ""
  | item :: rest =>
    indentation depth ++ structured depth item ++ (if rest.isEmpty then "\n" else ",\n") ++
      structuredItems depth rest

def structuredFields (depth : Nat) : List (String × Value) → String
  | [] => ""
  | (name, item) :: rest =>
    indentation depth ++ "\"" ++ name ++ "\": " ++ structured depth item ++
      (if rest.isEmpty then "\n" else ",\n") ++ structuredFields depth rest

end

/-- The text shown where a value is interpolated: nothing for what is not
there, indented text for a container. -/
def shown : Value → String
  | .undefined | .null => ""
  | .list items => structured 0 (.list items)
  | .record fields => structured 0 (.record fields)
  | other => other.asText

end Value

end Templating.Data
