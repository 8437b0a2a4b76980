import Templating.Markup.Token
import Templating.Text.Blank
/-!
# Scanning markup

`scan` cuts a template into tokens from left to right.  It never fails: what
opens no tag is text, declarations are skipped, and a start tag without an end
is a token of its own.
-/
set_option autoImplicit false

namespace Templating.Markup

open Templating.Text

/-- What is left to read, and the byte offset at which it starts. -/
structure Cursor where
  rest : List Char
  offset : Nat
deriving DecidableEq, Repr

def Cursor.ofSource (source : String) : Cursor := ⟨source.toList, 0⟩

def Cursor.advance (cursor : Cursor) (passed rest : List Char) : Cursor :=
  ⟨rest, cursor.offset + byteLength passed⟩

def Cursor.skipWhile (cursor : Cursor) (accepts : Char → Bool) : Cursor :=
  cursor.advance (cursor.rest.takeWhile accepts) (cursor.rest.dropWhile accepts)

def Cursor.skipBlanks (cursor : Cursor) : Cursor := cursor.skipWhile isTagBlank

def Cursor.next (cursor : Cursor) : Cursor :=
  cursor.advance (cursor.rest.take 1) (cursor.rest.drop 1)

def opensTag : List Char → Bool
  | '<' :: '/' :: c :: _ => isAsciiLetter c
  | '<' :: c :: _ => isAsciiLetter c || c == '!'
  | _ => false

def isTagNameChar (c : Char) : Bool :=
  isAsciiWord c || c == '_' || c == '-' || c == ':' || c == '.'

def isAttributeNameChar (c : Char) : Bool :=
  !(isAsciiBlank c || c == '\x22' || c == '\x27' || c == '<' || c == '>' || c == '/' || c == '=')

/-- The name of an attribute and what follows it.  Between brackets a name may
hold anything but `>`. -/
def attributeName : Int → List Char → List Char × List Char
  | _, [] => ([], [])
  | depth, c :: rest =>
    let inside := if c = '[' then depth + 1 else if c = ']' then depth - 1 else depth
    if (0 < inside ∧ c ≠ '>') ∨ isAttributeNameChar c = true then
      let found := attributeName inside rest
      (c :: found.1, found.2)
    else ([], c :: rest)

def endsPlainValue (c : Char) : Bool :=
  isAsciiBlank c || c == '\x22' || c == '\x27' || c == '=' || c == '<' || c == '>' || c == '\x60'

/-- The value behind an equals sign, between quotes or up to a character that
ends a value without quotes. -/
def attributeValue (cursor : Cursor) : Option String × Cursor :=
  match cursor.rest with
  | [] => (none, cursor)
  | c :: rest =>
    if c = '\x22' ∨ c = '\x27' then
      let value := rest.takeWhile (· ≠ c)
      let behind := rest.drop value.length
      (some (String.ofList value), cursor.advance (c :: value ++ behind.take 1) (behind.drop 1))
    else
      let value := cursor.rest.takeWhile fun d => !endsPlainValue d
      if value.isEmpty then (none, cursor)
      else (some (String.ofList value), cursor.advance value (cursor.rest.drop value.length))

def scanAttribute? (cursor : Cursor) : Option (SourceAttribute × Cursor) :=
  let named := attributeName 0 cursor.rest
  if named.1.isEmpty then none
  else
    let name := String.ofList named.1
    let behindName := cursor.advance named.1 named.2
    let ahead := behindName.skipBlanks
    if ahead.rest.head? = some '=' then
      let valued := attributeValue ahead.next.skipBlanks
      some (⟨name, valued.1, ⟨cursor.offset, valued.2.offset⟩⟩, valued.2)
    else some (⟨name, none, ⟨cursor.offset, behindName.offset⟩⟩, behindName)

/-- The attributes of a start tag, whether the tag closes itself, and the
cursor behind it; nothing where the template ends inside the tag.  Characters
that belong to no attribute are skipped.  Each round passes a character, so
`fuel` beyond the number of characters left is enough. -/
def scanAttributes : Nat → Cursor → Option (List SourceAttribute × Bool × Cursor)
  | 0, _ => none
  | fuel + 1, cursor =>
    let here := cursor.skipBlanks
    match here.rest with
    | [] => none
    | '>' :: _ => some ([], false, here.next)
    | '/' :: '>' :: _ => some ([], true, here.next.next)
    | '/' :: _ => scanAttributes fuel here.next
    | _ =>
      match scanAttribute? here with
      | none => scanAttributes fuel here.next
      | some (found, behind) =>
        (scanAttributes fuel behind).map fun (others, selfClosing, after) =>
          (found :: others, selfClosing, after)

/-- A start tag; the cursor stands before its `<`. -/
def scanStartTag (cursor : Cursor) : Token × Cursor :=
  let inside := cursor.next
  let name := inside.rest.takeWhile isTagNameChar
  let behindName := inside.skipWhile isTagNameChar
  match scanAttributes (behindName.rest.length + 1) behindName with
  | some (attributes, selfClosing, after) =>
    (.startTag (String.ofList name) attributes selfClosing ⟨cursor.offset, after.offset⟩, after)
  | none =>
    let after := cursor.advance cursor.rest []
    (.malformed (String.ofList cursor.rest) ⟨cursor.offset, after.offset⟩, after)

/-- An end tag, with all that stands between its name and the next `>`. -/
def scanEndTag (cursor : Cursor) : Token × Cursor :=
  let inside := cursor.next.next
  let name := inside.rest.takeWhile isTagNameChar
  let after := ((inside.skipWhile isTagNameChar).skipWhile (· ≠ '>')).next
  (.endTag (String.ofList name) ⟨cursor.offset, after.offset⟩, after)

def beforeTag : List Char → List Char × List Char
  | [] => ([], [])
  | c :: rest =>
    if opensTag (c :: rest) then ([], c :: rest)
    else
      let found := beforeTag rest
      (c :: found.1, found.2)

/-- A text; its first character belongs to it whatever it is. -/
def scanText (cursor : Cursor) : Token × Cursor :=
  let found := beforeTag (cursor.rest.drop 1)
  let content := cursor.rest.take 1 ++ found.1
  let after := cursor.advance content found.2
  (.text (String.ofList content) ⟨cursor.offset, after.offset⟩, after)

inductive Step where
  | finished
  | skipped (after : Cursor)
  | emitted (token : Token) (after : Cursor)

def Step.ofPair (pair : Token × Cursor) : Step := .emitted pair.1 pair.2

/-- Behind the next occurrence of `closing`, if there is one; otherwise the
opening characters are text. -/
def skipDeclaration (cursor : Cursor) (opening closing : List Char) : Step :=
  match breakAt? closing (cursor.rest.drop opening.length) with
  | some (passed, rest) => .skipped (cursor.advance (opening ++ passed ++ closing) rest)
  | none => .ofPair (scanText cursor)

/-- A comment, or text where none is closed.  The closing mark is looked for behind the four
characters of the opening one, so that scanning never fails: `<!-->` and `<!--->` open a comment that
goes on.  A scanner that looks for it from the first of the four on has no content to cut out of
such a text, and stops there; both agree wherever the marks do not overlap. -/
def scanComment (cursor : Cursor) : Step :=
  match breakAt? ['-', '-', '>'] (cursor.rest.drop 4) with
  | some (content, rest) =>
    let after := cursor.advance (['<', '!', '-', '-'] ++ content ++ ['-', '-', '>']) rest
    .emitted (.comment (String.ofList content) ⟨cursor.offset, after.offset⟩) after
  | none => .ofPair (scanText cursor)

def scanStep (cursor : Cursor) : Step :=
  match cursor.rest with
  | [] => .finished
  | rest =>
    if !opensTag rest then .ofPair (scanText cursor)
    else if startsWith ['<', '!', '-', '-'] rest then scanComment cursor
    else if startsWith ['<', '!', '['] rest then skipDeclaration cursor ['<', '!', '['] [']', '>']
    else if startsWith ['<', '!'] rest then skipDeclaration cursor ['<', '!'] ['>']
    else if startsWith ['<', '/'] rest then .ofPair (scanEndTag cursor)
    else .ofPair (scanStartTag cursor)

/-- The text up to the end tag of `tag`, in any case, or up to the end. -/
def scanPlainText (tag : String) (cursor : Cursor) : List Char × List Char :=
  let closing := '<' :: '/' :: tag.toList.map asciiLower
  let length := (spanUntil closing (cursor.rest.map asciiLower)).1.length
  (cursor.rest.take length, cursor.rest.drop length)

/-- The element whose content is to be read as text after `token`. -/
def Token.plainTextTag? : Token → Option String
  | .startTag name _ selfClosing _ =>
    if !selfClosing && isPlainTextTag name then some name else none
  | _ => none

/-- The tokens from the cursor on, where `plain` names the element that has
just been opened if its content is text.  Each round passes a character. -/
def scanFrom : Nat → Option String → Cursor → List Token
  | 0, _, _ => []
  | fuel + 1, plain, cursor =>
    let content := plain.elim ([], cursor.rest) fun tag => scanPlainText tag cursor
    if content.1.isEmpty then
      match scanStep cursor with
      | .finished => []
      | .skipped after => scanFrom fuel none after
      | .emitted token after => token :: scanFrom fuel token.plainTextTag? after
    else
      let after := cursor.advance content.1 content.2
      .text (String.ofList content.1) ⟨cursor.offset, after.offset⟩ :: scanFrom fuel none after

def scan (source : String) : List Token :=
  scanFrom (source.toList.length + 1) none (.ofSource source)

end Templating.Markup
