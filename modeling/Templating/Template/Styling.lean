import Templating.Text.Blank
import Templating.Text.Search
/-!
# Style declarations

`name: value` pairs between semicolons.  Semicolons in parentheses end no
declaration.
-/
set_option autoImplicit false

namespace Templating.Template

open Templating.Text

/-- The pieces between the semicolons that stand in no open parenthesis. -/
def declarations (depth : Int) : List Char → List (List Char)
  | [] => [[]]
  | c :: rest =>
    if c = ';' ∧ depth ≤ 0 then [] :: declarations depth rest
    else
      let inside := if c = '(' then depth + 1 else if c = ')' then depth - 1 else depth
      match declarations inside rest with
      | [] => [[c]]
      | piece :: others => (c :: piece) :: others

/-- A declaration has a colon and a name before it. -/
def declaration? (source : List Char) : Option (String × String) :=
  match cutAt? ':' source with
  | none => none
  | some (name, value) =>
    let name := trim name
    if name.isEmpty then none else some (String.ofList name, String.ofList (trim value))

def parseStyle (source : String) : List (String × String) :=
  (declarations 0 source.toList).filterMap declaration?

end Templating.Template
