import Templating.Text.Numeral
/-!
# Character references

`&name;` stands for a character.  The names differ between attribute values
and text; text also has references by code point.
-/
set_option autoImplicit false

namespace Templating.Markup

open Templating.Text

/-- The names known in attribute values.  A line feed or tab is decoded only
where `keepsBreaks` asks for it. -/
def attributeReference? (keepsBreaks : Bool) (name : String) : Option Char :=
  if name == "lt" then some '<'
  else if name == "gt" then some '>'
  else if name == "quot" then some '\x22'
  else if name == "amp" then some '&'
  else if name == "#39" then some '\x27'
  else if name == "#10" && keepsBreaks then some '\n'
  else if name == "#9" && keepsBreaks then some '\t'
  else none

/-- A code point in decimal, or in hexadecimal after an `x`. -/
def numericReference? (digits : List Char) : Option Char :=
  match digits with
  | 'x' :: hex | 'X' :: hex => (readNatural? 16 wordBound hex).bind character?
  | decimal => (readWord? decimal).bind character?

def textReference? (name : String) : Option Char :=
  if name == "lt" then some '<'
  else if name == "gt" then some '>'
  else if name == "quot" then some '\x22'
  else if name == "amp" then some '&'
  else if name == "apos" then some '\x27'
  else if name == "nbsp" then some '\xa0'
  else (dropLeading? ['#'] name.toList).bind numericReference?

/-- The name and the rest after a semicolon that ends a name of one to ten
bytes. -/
def referenceName? : Nat → List Char → Option (List Char × List Char)
  | _, [] => none
  | budget, c :: rest =>
    if c = ';' then some ([], rest)
    else if budget < c.utf8Size then none
    else (referenceName? (budget - c.utf8Size) rest).map fun found => (c :: found.1, found.2)

/-- Every reference that `known` decodes replaced by its character; an
ampersand that starts none stays.  `skipped` counts the characters of a
reference already decoded. -/
def decodeWith (known : String → Option Char) : Nat → List Char → List Char
  | _, [] => []
  | skipped + 1, _ :: rest => decodeWith known skipped rest
  | 0, c :: rest =>
    if c = '&' then
      match referenceName? 10 rest with
      | some (name, _) =>
        match (if name.isEmpty then none else known (String.ofList name)) with
        | some decoded => decoded :: decodeWith known (name.length + 1) rest
        | none => c :: decodeWith known 0 rest
      | none => c :: decodeWith known 0 rest
    else c :: decodeWith known 0 rest

def decodeAttribute (keepsBreaks : Bool) (value : String) : String :=
  String.ofList (decodeWith (attributeReference? keepsBreaks) 0 value.toList)

def decodeText (content : String) : String :=
  String.ofList (decodeWith textReference? 0 content.toList)

end Templating.Markup
