/-!
# Searching and splitting

Leftmost search for a given text inside a list of characters.
-/
set_option autoImplicit false

namespace Templating.Text

/-- What follows `pattern` at the front of the text. -/
def dropLeading? : List Char → List Char → Option (List Char)
  | [], rest => some rest
  | _ :: _, [] => none
  | p :: pattern, c :: rest => if p = c then dropLeading? pattern rest else none

def breakAt? (pattern : List Char) : List Char → Option (List Char × List Char)
  | [] => (dropLeading? pattern []).map fun after => ([], after)
  | c :: rest =>
    match dropLeading? pattern (c :: rest) with
    | some after => some ([], after)
    | none => (breakAt? pattern rest).map fun found => (c :: found.1, found.2)

/-- The text before the first occurrence of `pattern` and what starts with it;
the whole text and nothing where there is none. -/
def spanUntil (pattern : List Char) : List Char → List Char × List Char
  | [] => ([], [])
  | c :: rest =>
    if (dropLeading? pattern (c :: rest)).isSome then ([], c :: rest)
    else
      let found := spanUntil pattern rest
      (c :: found.1, found.2)

/-- The pieces between the occurrences of a separator that is not empty;
occurrences are taken from the left and do not overlap. -/
def splitAll (separator source : List Char) : List (List Char) :=
  collect 0 [] source
where
  /-- `skipped` characters still belong to the separator just met; `current`
  holds the piece that is being read, last character first. -/
  collect : Nat → List Char → List Char → List (List Char)
    | _, current, [] => [current.reverse]
    | skipped + 1, current, _ :: rest => collect skipped current rest
    | 0, current, c :: rest =>
      if (dropLeading? separator (c :: rest)).isSome then
        current.reverse :: collect (separator.length - 1) [] rest
      else collect 0 (c :: current) rest

def splitAt (separator : Char) (source : List Char) : List (List Char) :=
  splitAll [separator] source

def cutAt? (separator : Char) (source : List Char) : Option (List Char × List Char) :=
  breakAt? [separator] source

def contains (pattern source : List Char) : Bool := (breakAt? pattern source).isSome

def startsWith (pattern source : List Char) : Bool := (dropLeading? pattern source).isSome

def endsWith (pattern source : List Char) : Bool :=
  startsWith pattern.reverse source.reverse

/-- The text before `pattern` where it stands at the end. -/
def dropTrailing? (pattern source : List Char) : Option (List Char) :=
  (dropLeading? pattern.reverse source.reverse).map List.reverse

/-- The letters of the first 128 code points in lower case, all else as it is. -/
def asciiLower (c : Char) : Char :=
  if 'A' ≤ c ∧ c ≤ 'Z' then Char.ofNat (c.toNat + 32) else c

def asciiLowered (s : String) : String := String.ofList (s.toList.map asciiLower)

def sameIgnoringAsciiCase (left right : String) : Bool :=
  left.toList.map asciiLower == right.toList.map asciiLower

def isAsciiLetter (c : Char) : Bool := ('a' ≤ c && c ≤ 'z') || ('A' ≤ c && c ≤ 'Z')

def isAsciiDigit (c : Char) : Bool := '0' ≤ c && c ≤ '9'

def isAsciiWord (c : Char) : Bool := isAsciiLetter c || isAsciiDigit c

def join (separator : String) : List String → String
  | [] => ""
  | [piece] => piece
  | piece :: rest => piece ++ separator ++ join separator rest

def repeated (piece : String) : Nat → String
  | 0 => ""
  | count + 1 => piece ++ repeated piece count

end Templating.Text
