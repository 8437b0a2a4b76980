/-!
# Pieces of render source

Render source is written as pieces, so that the calls of fragments and the
numbers of subtrees rendered once stay apart from the text around them.
-/
set_option autoImplicit false

namespace Templating.Rendering

inductive Piece where
  | source (text : String)
  /-- The call of a fragment; inside a loop its result is not kept. -/
  | fragment (index : Nat) (inLoop : Bool)
  /-- The number of a subtree rendered once for each key. -/
  | onceId (id : Nat)
deriving DecidableEq, Repr

def Piece.text : Piece → String
  | .source text => text
  | .fragment index false => "_m(" ++ toString index ++ ")"
  | .fragment index true => "_m(" ++ toString index ++ ",true)"
  | .onceId id => toString id

abbrev Code := List Piece

namespace Code

def ofSource (text : String) : Code := [.source text]

def text (code : Code) : String := String.join (code.map Piece.text)

def commaSeparated : List Code → Code
  | [] => []
  | [code] => code
  | code :: rest => code ++ .source "," :: commaSeparated rest

/-- A function without parameters that renders on data. -/
def wrapped (code : Code) : Code :=
  .source "with(this)\x7breturn " :: code ++ [.source "\x7d"]

end Code

/-- The render function of a template and the fragments that it calls. -/
structure Program where
  render : Code
  fragments : List Code
deriving DecidableEq, Repr

end Templating.Rendering
