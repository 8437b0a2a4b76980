import Templating.Text.Blank
import Templating.Text.Literal
import Templating.Text.Span
/-!
# Interpolation

Text is cut into literal segments and the expressions between delimiters.
-/
set_option autoImplicit false

namespace Templating.Template

open Templating.Text

structure Delimiters where
  opening : String
  closing : String
deriving DecidableEq, Repr

def Delimiters.standard : Delimiters := ⟨"\x7b\x7b", "\x7d\x7d"⟩

/-- Neither delimiter is empty; otherwise nothing is interpolated. -/
def Delimiters.areUsable (delimiters : Delimiters) : Bool :=
  delimiters.opening != "" && delimiters.closing != ""

inductive Segment where
  | literal (content : String)
  | binding (expression : String)
deriving DecidableEq, Repr

namespace Segment

def code : Segment → String
  | .literal content => Literal.encode content
  | .binding expression => "_s(" ++ expression ++ ")"

def isBinding : Segment → Bool
  | .literal _ => false
  | .binding _ => true

def concatenation (segments : List Segment) : String := join "+" (segments.map code)

def ofLiteral (content : List Char) : List Segment :=
  if content.isEmpty then [] else [.literal (String.ofList content)]

/-- The segments of `source`, where the literal text `pending` precedes it.
An interpolation of blanks is literal text.  Each round passes an opening
delimiter. -/
def splitFrom (opening closing : List Char) : Nat → List Char → List Char → List Segment
  | 0, pending, source => ofLiteral (pending ++ source)
  | fuel + 1, pending, source =>
    match breakAt? opening source with
    | none => ofLiteral (pending ++ source)
    | some (before, inside) =>
      match breakAt? closing inside with
      | none => ofLiteral (pending ++ source)
      | some (expression, after) =>
        let trimmedExpression := trim expression
        if trimmedExpression.isEmpty then
          splitFrom opening closing fuel
            (pending ++ before ++ opening ++ expression ++ closing) after
        else
          ofLiteral (pending ++ before) ++
            .binding (String.ofList trimmedExpression) :: splitFrom opening closing fuel [] after

end Segment

def interpolations? (delimiters : Delimiters) (content : String) : Option (List Segment) :=
  if delimiters.areUsable then
    let segments := Segment.splitFrom delimiters.opening.toList delimiters.closing.toList
      content.toList.length [] content.toList
    if segments.any Segment.isBinding then some segments else none
  else none

def hasInterpolation (delimiters : Delimiters) (content : String) : Bool :=
  (interpolations? delimiters content).isSome

/-- The byte offset of the first opening delimiter that is not closed. -/
def unterminatedFrom (opening closing : List Char) : Nat → Nat → List Char → Option Nat
  | 0, _, _ => none
  | fuel + 1, offset, source =>
    match breakAt? opening source with
    | none => none
    | some (before, inside) =>
      let start := offset + byteLength before
      match breakAt? closing inside with
      | none => some start
      | some (expression, after) =>
        unterminatedFrom opening closing fuel
          (start + byteLength opening + byteLength expression + byteLength closing) after

def unterminated? (delimiters : Delimiters) (content : String) : Option Nat :=
  if delimiters.areUsable then
    unterminatedFrom delimiters.opening.toList delimiters.closing.toList
      (content.toList.length + 1) 0 content.toList
  else none

end Templating.Template
