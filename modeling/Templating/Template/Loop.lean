import Templating.Text.Blank
import Templating.Text.Search
/-!
# Loop headers

`item in items`, `(item, index) of items` and patterns in place of `item`.
-/
set_option autoImplicit false

namespace Templating.Template

open Templating.Text

structure Loop where
  source : String
  item : String
  first : Option String
  second : Option String
deriving DecidableEq, Repr

namespace Loop

def targets (header : Loop) : List String :=
  header.item :: (header.first.toList ++ header.second.toList)

/-- What follows `in` or `of`, where the word stands here between two blanks
and something follows the second. -/
def behindSeparator? : List Char → Option (List Char)
  | before :: a :: b :: after :: c :: rest =>
    if isAsciiBlank before && isAsciiBlank after &&
        ((a == 'i' && b == 'n') || (a == 'o' && b == 'f')) then
      some (after :: c :: rest)
    else none
  | _ => none

def sides? : List Char → Option (List Char × List Char)
  | [] => none
  | c :: rest =>
    match behindSeparator? (c :: rest) with
    | some source => some ([], source)
    | none => (sides? rest).map fun found => (c :: found.1, found.2)

/-- The pieces between the commas outside all brackets. -/
def pieces (depth : Int) : List Char → List (List Char)
  | [] => [[]]
  | c :: rest =>
    if c = ',' ∧ depth = 0 then [] :: pieces depth rest
    else
      let inside :=
        if c = '\x7b' ∨ c = '[' ∨ c = '(' then depth + 1
        else if c = '\x7d' ∨ c = ']' ∨ c = ')' then depth - 1
        else depth
      match pieces inside rest with
      | [] => [[c]]
      | piece :: others => (c :: piece) :: others

/-- The header inside the parentheses that may surround all variables. -/
def withoutParentheses (source : List Char) : List Char :=
  ((dropLeading? ['('] source).bind (dropTrailing? [')'])).getD source

def named? (piece : Option (List Char)) : Option String :=
  (piece.filter fun name => !name.isEmpty).map String.ofList

/-- Reads a header; the first variable and the source must be there. -/
def parse? (header : String) : Option Loop :=
  match sides? header.toList with
  | none => none
  | some (left, right) =>
    let source := trim right
    let parts := (pieces 0 (withoutParentheses (trim left))).map trim
    match named? parts[0]? with
    | none => none
    | some item =>
      if source.isEmpty then none
      else some ⟨String.ofList source, item, named? parts[1]?, named? parts[2]?⟩

end Loop

end Templating.Template
