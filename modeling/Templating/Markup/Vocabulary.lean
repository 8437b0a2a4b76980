import Templating.Text.Search
/-!
# Vocabulary of HTML

Which tags there are and how they behave.  The tables are asked without regard
to the case of letters; the remaining rules compare tags as they are written.
-/
set_option autoImplicit false

namespace Templating.Markup.Vocabulary

open Templating.Text

def htmlTags : List String := [
    "html", "body", "base", "head", "link", "meta", "style", "title", "address", "article",
    "aside", "footer", "header", "h1", "h2", "h3", "h4", "h5", "h6", "hgroup", "nav", "section",
    "div", "dd", "dl", "dt", "figcaption", "figure", "picture", "hr", "img", "li", "main", "ol",
    "p", "pre", "ul", "a", "b", "abbr", "bdi", "bdo", "br", "cite", "code", "data", "dfn", "em",
    "i", "kbd", "mark", "q", "rp", "rt", "rtc", "ruby", "s", "samp", "small", "span", "strong",
    "sub", "sup", "time", "u", "var", "wbr", "area", "audio", "map", "track", "video", "embed",
    "object", "param", "source", "canvas", "script", "noscript", "del", "ins", "caption", "col",
    "colgroup", "table", "thead", "tbody", "td", "th", "tr", "button", "datalist", "fieldset",
    "form", "input", "label", "legend", "meter", "optgroup", "option", "output", "progress",
    "select", "textarea", "details", "dialog", "menu", "menuitem", "summary", "content",
    "element", "shadow", "template", "blockquote", "iframe", "tfoot"]

def svgTags : List String := [
    "svg", "animate", "circle", "clippath", "cursor", "defs", "desc", "ellipse", "filter",
    "font-face", "foreignobject", "g", "glyph", "image", "line", "marker", "mask",
    "missing-glyph", "path", "pattern", "polygon", "polyline", "rect", "switch", "symbol", "text",
    "textpath", "tspan", "use", "view"]

def unaryTags : List String := [
    "area", "base", "br", "col", "embed", "frame", "hr", "img", "input", "isindex", "keygen",
    "link", "meta", "param", "source", "track", "wbr"]

/-- Elements that a sibling of the same tag closes. -/
def leftOpenTags : List String := [
    "colgroup", "dd", "dt", "li", "options", "p", "td", "tfoot", "th", "thead", "tr", "source"]

/-- Elements that close a paragraph. -/
def nonPhrasingTags : List String := [
    "address", "article", "aside", "base", "blockquote", "body", "caption", "col", "colgroup",
    "dd", "details", "dialog", "div", "dl", "dt", "fieldset", "figcaption", "figure", "footer",
    "form", "h1", "h2", "h3", "h4", "h5", "h6", "head", "header", "hgroup", "hr", "html",
    "legend", "li", "menuitem", "meta", "optgroup", "option", "param", "rp", "rt", "source",
    "style", "summary", "tbody", "td", "tfoot", "th", "thead", "title", "tr", "track"]

def valueTags : List String := ["input", "textarea", "option", "select", "progress"]

def holds (table : List String) (tag : String) : Bool := table.contains (asciiLowered tag)

def isHtml (tag : String) : Bool := holds htmlTags tag

def isSvg (tag : String) : Bool := holds svgTags tag

def isReserved (tag : String) : Bool := isHtml tag || isSvg tag

def isUnary (tag : String) : Bool := holds unaryTags tag

def mayStayOpen (tag : String) : Bool := holds leftOpenTags tag

def isNonPhrasing (tag : String) : Bool := holds nonPhrasingTags tag

def isPreformatted (tag : String) : Bool := tag == "pre"

/-- Bindings of `name` on `tag` that set a DOM prop instead of an attribute. -/
def mustUseProp (tag : String) (type : Option String) (name : String) : Bool :=
  (name == "value" && holds valueTags tag && type != some "button") ||
    (name == "selected" && tag == "option") || (name == "checked" && tag == "input") ||
    (name == "muted" && tag == "video")

def namespaceOf (tag : String) : Option String :=
  if isSvg tag then some "svg" else if tag == "math" then some "math" else none

end Templating.Markup.Vocabulary
