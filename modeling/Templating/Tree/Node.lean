import Templating.Data.Value
/-!
# Virtual nodes

The result of a render: elements with their props, texts and comments.
-/
set_option autoImplicit false

namespace Templating.Tree

open Templating.Data

/-- A directive that is left for the time after rendering. -/
structure Directive where
  name : String
  rawName : String
  value : Value
  expression : Option String
  argument : Option String
  modifiers : List String
deriving Inhabited

structure Props where
  attributes : Dictionary String
  domProps : Dictionary String
  /-- Listener source by event name. -/
  listeners : Dictionary String
  nativeListeners : Dictionary String
  directives : List Directive
  key : Option String
  ref : Option String
  /-- The outlet of the parent component into which the node goes. -/
  slot : Option String
  /-- The node comes from a fragment or from a subtree rendered once. -/
  isStatic : Bool
deriving Inhabited

def Props.empty : Props :=
  { attributes := [], domProps := [], listeners := [], nativeListeners := [], directives := []
    key := none, ref := none, slot := none, isStatic := false }

inductive Node where
  | element (tag : String) (props : Props) (children : List Node)
  | text (content : String)
  /-- A comment that was kept, or the place of a branch that rendered nothing. -/
  | comment (content : String)
deriving Inhabited

namespace Node

def tag? : Node → Option String
  | .element tag _ _ => some tag
  | _ => none

def children : Node → List Node
  | .element _ _ children => children
  | _ => []

mutual

def textContent : Node → String
  | .element _ _ children => joinedText children
  | .text content => content
  | .comment _ => ""

def joinedText : List Node → String
  | [] => ""
  | node :: rest => node.textContent ++ joinedText rest

end

end Node

end Templating.Tree
