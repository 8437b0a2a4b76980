import Templating.Tree.Node
/-!
# Markup of a tree

The inner markup or text content among the DOM props of an element stands in
place of its children.  Listeners and directives have no markup.
-/
set_option autoImplicit false

namespace Templating.Tree

open Templating.Data

def escapeChar (inAttribute : Bool) (c : Char) : List Char :=
  if c = '&' then ['&', 'a', 'm', 'p', ';']
  else if c = '<' then ['&', 'l', 't', ';']
  else if c = '>' then ['&', 'g', 't', ';']
  else if c = '\x22' ∧ inAttribute then ['&', 'q', 'u', 'o', 't', ';']
  else [c]

def escape (inAttribute : Bool) (s : String) : String :=
  String.ofList (s.toList.flatMap (escapeChar inAttribute))

/-- Elements that are written without an end tag. -/
def voidTags : List String :=
  ["area", "base", "br", "col", "embed", "hr", "img", "input", "link", "meta", "param", "source",
    "track", "wbr"]

def attributeMarkup (pair : String × String) : String :=
  " " ++ pair.1 ++ "=\"" ++ escape true pair.2 ++ "\""

def startTag (tag : String) (props : Props) : String :=
  "<" ++ tag ++ String.join (props.attributes.map attributeMarkup) ++ ">"

namespace Node

mutual

def markup : Node → String
  | .text content => escape false content
  | .comment content => "<!--" ++ content ++ "-->"
  | .element tag props children =>
    if voidTags.contains tag then startTag tag props
    else
      let inner :=
        match Dictionary.find? "innerHTML" props.domProps with
        | some given => given
        | none =>
          match Dictionary.find? "textContent" props.domProps with
          | some given => escape false given
          | none => joinedMarkup children
      startTag tag props ++ inner ++ "</" ++ tag ++ ">"

def joinedMarkup : List Node → String
  | [] => ""
  | node :: rest => node.markup ++ joinedMarkup rest

end

end Node

end Templating.Tree
