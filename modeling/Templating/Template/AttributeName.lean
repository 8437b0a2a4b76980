import Templating.Text.Blank
import Templating.Text.Casing
import Templating.Text.Search
/-!
# Names of attributes

The name of an attribute says what it is: `v-`, `:`, `@` and `#` start a
directive, dots start modifiers, and brackets hold an argument that is an
expression.
-/
set_option autoImplicit false

namespace Templating.Template.AttributeName

open Templating.Text

def isDirective (name : String) : Bool :=
  match name.toList with
  | 'v' :: '-' :: _ => true
  | ':' :: _ | '@' :: _ | '#' :: _ => true
  | _ => false

/-- The name and its modifiers.  Dots before the last closing bracket belong to
the name, and empty modifiers are left out. -/
def splitModifiers (name : String) : String × List String :=
  let source := name.toList
  let tail := (source.reverse.takeWhile (· ≠ ']')).reverse
  let front := source.take (source.length - tail.length)
  match cutAt? '.' tail with
  | some (before, after) =>
    (String.ofList (front ++ before),
      ((splitAt '.' after).filter fun modifier => !modifier.isEmpty).map String.ofList)
  | none => (name, [])

/-- What stands between brackets around the whole argument is an expression;
any other argument is a literal name. -/
def argument (source : String) : String × Bool :=
  match (dropLeading? ['['] source.toList).bind (dropTrailing? [']']) with
  | some inner => (String.ofList (trim inner), true)
  | none => (source, false)

/-- `capital` says that a hyphen has just been passed. -/
def camelizeFrom (capital : Bool) : List Char → List Char
  | [] => if capital then ['-'] else []
  | c :: rest =>
    if c = '-' then camelizeFrom true rest
    else if capital then upperChar c ++ camelizeFrom false rest
    else c :: camelizeFrom false rest

/-- Hyphens make the next letter a capital; a hyphen at the end stays. -/
def camelize (name : String) : String := String.ofList (camelizeFrom false name.toList)

def after? (lead name : String) : Option String :=
  (dropLeading? lead.toList name.toList).map String.ofList

end Templating.Template.AttributeName
