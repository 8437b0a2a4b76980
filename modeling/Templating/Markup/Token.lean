import Templating.Text.Search
import Templating.Text.Span
/-!
# Tokens of markup

A template is a sequence of tags, texts and comments.  Names and values are as
they stand in the source; nothing is decoded.
-/
set_option autoImplicit false

namespace Templating.Markup

open Templating.Text

structure SourceAttribute where
  name : String
  value : Option String
  span : Span
deriving DecidableEq, Repr, Inhabited

inductive Token where
  | startTag (name : String) (attributes : List SourceAttribute) (selfClosing : Bool) (span : Span)
  | endTag (name : String) (span : Span)
  | text (content : String) (span : Span)
  | comment (content : String) (span : Span)
  /-- A start tag that the template ends before. -/
  | malformed (content : String) (span : Span)
deriving DecidableEq, Repr, Inhabited

def Token.span : Token → Span
  | .startTag _ _ _ span => span
  | .endTag _ span => span
  | .text _ span => span
  | .comment _ span => span
  | .malformed _ span => span

/-- The content of these elements is text up to their own end tag. -/
def isPlainTextTag (tag : String) : Bool :=
  ["script", "style", "textarea"].contains (asciiLowered tag)

end Templating.Markup
