import Templating.Markup.Reference
import Templating.Markup.Scan
import Templating.Template.Attributes
/-!
# Reading templates

A template is read in one pass over its tokens with a stack of open elements.
Reading never stops: what does not fit is reported and left out.
-/
set_option autoImplicit false

namespace Templating.Template

open Templating.Text Templating.Data Templating.Markup

structure Builder where
  /-- The open elements, innermost first, with the children read so far. -/
  opened : List Element
  root : Option Element
  nextId : Nat
  /-- The element from which on all is taken as it is written. -/
  verbatimRoot : Option Nat
  isPreformatted : Bool
  diagnostics : List Diagnostic

namespace Builder

def initial : Builder :=
  { opened := [], root := none, nextId := 0, verbatimRoot := none, isPreformatted := false
    diagnostics := [] }

def report (builder : Builder) (diagnostics : List Diagnostic) : Builder :=
  { builder with diagnostics := builder.diagnostics ++ diagnostics }

def isVerbatim (builder : Builder) : Bool := builder.verbatimRoot.isSome

def updateParent (builder : Builder) (change : Element → Element) : Builder :=
  match builder.opened with
  | [] => builder
  | parent :: outer => { builder with opened := change parent :: outer }

end Builder

def Element.addChild (parent : Element) (child : Node) : Element :=
  { parent with children := parent.children ++ [child] }

def Node.isBlankSpace : Node → Bool
  | .text run => run.isBlankSpace
  | _ => false

def withoutTrailingSpaces (children : List Node) : List Node :=
  (children.reverse.dropWhile Node.isBlankSpace).reverse

def rootDiagnostics (head : Head) : List Diagnostic :=
  (if head.tag == "slot" || head.tag == "template" then
    [.errorAt head.span (.rootTag head.tag)] else []) ++
  (if head.loop.isSome then [.errorAt head.span .rootLoop] else [])

/-- The children from the last element on, read backwards: texts and comments
between an element and its branch are left out, visible texts with a report. -/
def dropToElement : List Node → List Node × List Diagnostic
  | .text run :: earlier =>
    let (kept, diagnostics) := dropToElement earlier
    (kept,
      (if allBlank run.content then []
        else [.errorAt run.span (.textBetweenBranches (trimmed run.content))]) ++ diagnostics)
  | .comment _ :: earlier => dropToElement earlier
  | children => (children, [])

def strayBranch (head : Head) : Diagnostic :=
  .errorAt head.span (.strayBranch head.branchCondition head.tag)

def Element.asBranch (element : Element) : Branch :=
  ⟨element.head.branchCondition,
    { element with head := { element.head with branchCondition := none } }⟩

def Element.addBranch (element : Element) (branch : Element) : Element :=
  { element with branches := element.branches ++ [branch.asBranch] }

def attachBranch (parent branch : Element) : Element × List Diagnostic :=
  let (backwards, diagnostics) := dropToElement parent.children.reverse
  match backwards with
  | .element previous :: earlier =>
    if previous.head.condition.isSome then
      ({ parent with children := (Node.element (previous.addBranch branch) :: earlier).reverse },
        diagnostics)
    else ({ parent with children := backwards.reverse }, diagnostics ++ [strayBranch branch.head])
  | _ => ({ parent with children := backwards.reverse }, diagnostics ++ [strayBranch branch.head])

namespace Builder

/-- Puts a closed element where it belongs: among the children or branches of
its parent, or at the root. -/
def place (builder : Builder) (element : Element) : Builder :=
  match builder.opened with
  | parent :: outer =>
    if element.head.isForbidden then builder
    else if element.head.isBranch then
      let (joined, diagnostics) := attachBranch parent element
      { builder with opened := joined :: outer }.report diagnostics
    else { builder with opened := parent.addChild (.element element) :: outer }
  | [] =>
    match builder.root with
    | none => { builder with root := some element }
    | some root =>
      if root.head.condition.isSome && element.head.isBranch then
        { builder with root := some (root.addBranch element) }.report
          (rootDiagnostics element.head)
      else builder.report [.errorAt element.head.span .severalRoots]

def leave (builder : Builder) (settings : Settings) (head : Head) : Builder :=
  { builder with
    verbatimRoot :=
      if builder.verbatimRoot == some head.id then none else builder.verbatimRoot
    isPreformatted :=
      if settings.platform.isPreformatted head.tag then false else builder.isPreformatted }

/-- Finishes an element that is no longer on the stack. -/
def close (settings : Settings) (builder : Builder) (element : Element) : Builder :=
  let children :=
    if builder.isPreformatted then element.children else withoutTrailingSpaces element.children
  let (head, diagnostics) :=
    if builder.isVerbatim then (element.head, []) else element.head.complete settings
  ((builder.report diagnostics).place { element with head, children }).leave settings head

def closeUnmatched (settings : Settings) (builder : Builder) : Builder :=
  match builder.opened with
  | [] => builder
  | element :: outer =>
    close settings
      ({ builder with opened := outer }.report
        [.errorAt element.head.span (.unclosedTag element.head.tag)])
      element

def closeAllUnmatched (settings : Settings) : Nat → Builder → Builder
  | 0, builder => builder
  | count + 1, builder => closeAllUnmatched settings count (builder.closeUnmatched settings)

def closeMatched (settings : Settings) (stop : Nat) (builder : Builder) : Builder :=
  match builder.opened with
  | [] => builder
  | element :: outer =>
    let span : Span := ⟨element.head.span.start, stop⟩
    close settings { builder with opened := outer }
      { element with head := { element.head with span } }

def depthOf? (tag : String) (builder : Builder) : Option Nat :=
  builder.opened.findIdx? fun element => sameIgnoringAsciiCase element.head.tag tag

def closeThrough (settings : Settings) (tag : String) (span : Span) (builder : Builder) : Builder :=
  match builder.depthOf? tag with
  | none => builder
  | some depth => (builder.closeAllUnmatched settings depth).closeMatched settings span.stop

/-- Closes the parent where the element that opens cannot be inside it: a
paragraph before what is no phrase, and a sibling of the same tag that may stay
open. -/
def closeBefore (settings : Settings) (tag : String) (span : Span) (builder : Builder) : Builder :=
  let here : Span := ⟨span.start, span.start⟩
  let parentIs (tag : String) (builder : Builder) : Bool :=
    builder.opened.head?.any fun element => element.head.tag == tag
  let outside :=
    if parentIs "p" builder && settings.platform.isNonPhrasing tag then
      builder.closeThrough settings "p" here
    else builder
  if settings.platform.mayStayOpen tag && parentIs tag outside then
    outside.closeThrough settings tag here
  else outside

/-- The attributes of a start tag with their references decoded; of those with
one name the first counts. -/
def distinctAttributes (tag : String) (seen : List String) :
    List SourceAttribute → List SourceAttribute × List Diagnostic
  | [] => ([], [])
  | item :: rest =>
    if seen.contains item.name then
      let (kept, diagnostics) := distinctAttributes tag seen rest
      (kept, .errorAt item.span (.duplicateAttribute item.name) :: diagnostics)
    else
      let (kept, diagnostics) := distinctAttributes tag (item.name :: seen) rest
      let keepsBreaks := tag == "a" && item.name == "href"
      ({ item with value := item.value.map (decodeAttribute keepsBreaks) } :: kept, diagnostics)

/-- Tags with effects of their own have no place in a template. -/
def isForbiddenTag (head : Head) : Bool :=
  head.tag == "style" ||
    (head.tag == "script" && (head.givenValue? "type").all (· == "text/javascript"))

def freshHead (settings : Settings) (tag : String) (attributes : List SourceAttribute) (span : Span)
    (outside : Builder) : Head :=
  let namespaceName := (outside.opened.head?.bind fun parent => parent.head.namespaceName).orElse
    fun _ => settings.platform.namespaceOf tag
  let created := { Head.new outside.nextId tag attributes span with namespaceName }
  { created with isForbidden := isForbiddenTag created }

/-- The head behind the rules on structure, and the verbatim root from there on. -/
def enter (fresh : Head) (outside : Builder) : Head × Option Nat × List Diagnostic :=
  let (taken, verbatimRoot) :=
    if outside.isVerbatim then (fresh, outside.verbatimRoot)
    else
      match fresh.take? "v-pre" with
      | some (_, rest) => (rest, some fresh.id)
      | none => (fresh, none)
  if verbatimRoot.isSome then ({ taken with isVerbatim := true }.takeVerbatim, verbatimRoot, [])
  else
    let (head, structural) := taken.takeStructure
    (head, verbatimRoot, structural)

def startTag (settings : Settings) (tag : String) (attributes : List SourceAttribute)
    (selfClosing : Bool) (span : Span) (before : Builder) : Builder :=
  let outside := before.closeBefore settings tag span
  let (distinct, duplicates) := distinctAttributes tag [] attributes
  let fresh := outside.freshHead settings tag distinct span
  let forbidden : List Diagnostic :=
    if fresh.isForbidden then [.errorAt span (.forbiddenTag tag)] else []
  let (head, verbatimRoot, structural) := outside.enter fresh
  let rooted := if outside.opened.isEmpty && outside.root.isNone then rootDiagnostics head else []
  let inside :=
    { outside with
      nextId := outside.nextId + 1
      verbatimRoot
      isPreformatted := outside.isPreformatted || settings.platform.isPreformatted tag }.report
      (duplicates ++ forbidden ++ structural ++ rooted)
  let element : Element := ⟨head, [], []⟩
  if settings.platform.isUnary tag || selfClosing then inside.close settings element
  else { inside with opened := element :: inside.opened }

/-- Closes an element.  A paragraph or line break that was never opened is
empty; any other tag that closes nothing is reported. -/
def endTag (settings : Settings) (tag : String) (span : Span) (builder : Builder) : Builder :=
  if (builder.depthOf? tag).isSome then builder.closeThrough settings tag span
  else if sameIgnoringAsciiCase tag "br" then
    { builder with nextId := builder.nextId + 1 }.close settings
      ⟨Head.new builder.nextId "br" [] span, [], []⟩
  else if sameIgnoringAsciiCase tag "p" then
    (builder.startTag settings "p" [] false span).closeThrough settings "p" span
  else builder.report [.errorAt span (.strayEndTag tag)]

/-- Runs of blanks become single spaces; `pending` says that one has just been
written. -/
def condense (pending : Bool) : List Char → List Char
  | [] => []
  | c :: rest =>
    if isAsciiBlank c then
      if pending then condense true rest else ' ' :: condense true rest
    else c :: condense false rest

def isRawTextTag (tag : String) : Bool := tag == "script" || tag == "style"

/-- The content that a text contributes to its parent, before condensing.  A
blank text is a single space at most. -/
def textContent (settings : Settings) (parent : Element) (isPreformatted : Bool)
    (raw : String) : String :=
  if isPreformatted || !allBlank raw then
    if isRawTextTag parent.head.tag then raw else decodeText raw
  else if parent.children.isEmpty then ""
  else if settings.whitespace == .condense && raw.toList.any (fun c => c == '\n' || c == '\r') then
    ""
  else " "

def innerText (settings : Settings) (parent : Element) (raw : String) (span : Span)
    (id : Nat) (builder : Builder) : Builder :=
  let plain := textContent settings parent builder.isPreformatted raw
  let content :=
    if !builder.isPreformatted && settings.whitespace == .condense then
      String.ofList (condense false plain.toList)
    else plain
  if content == "" then builder
  else
    let unterminated : List Diagnostic :=
      if builder.isVerbatim then []
      else
        match unterminated? settings.delimiters raw with
        | some offset =>
          [.errorAt ⟨span.start + offset, span.stop⟩
            (.unterminatedInterpolation settings.delimiters.closing)]
        | none => []
    let segments :=
      if builder.isVerbatim || content == " " then []
      else (interpolations? settings.delimiters content).getD []
    let reported := builder.report unterminated
    if content == " " && parent.children.getLast?.any Node.isBlankSpace then reported
    else reported.updateParent fun element => element.addChild (.text ⟨id, content, segments, span⟩)

/-- Text outside the root is reported where it is visible, and where it is the
whole of the template. -/
def outerText (source raw : String) (span : Span) (builder : Builder) : Builder :=
  if raw == source then builder.report [.errorAt span .onlyText]
  else if allBlank raw then builder
  else builder.report [.errorAt span (.textOutsideRoot (trimmed raw))]

def text (settings : Settings) (source raw : String) (span : Span) (before : Builder) : Builder :=
  let builder := { before with nextId := before.nextId + 1 }
  match builder.opened with
  | [] => builder.outerText source raw span
  | parent :: _ => builder.innerText settings parent raw span before.nextId

def comment (settings : Settings) (content : String) (span : Span) (builder : Builder) : Builder :=
  if settings.keepsComments && !builder.opened.isEmpty then
    { builder with nextId := builder.nextId + 1 }.updateParent fun element =>
      element.addChild (.comment ⟨builder.nextId, content, span⟩)
  else builder

def token (settings : Settings) (source : String) (builder : Builder) : Token → Builder
  | .startTag name attributes selfClosing span =>
    builder.startTag settings name attributes selfClosing span
  | .endTag name span => builder.endTag settings name span
  | .text content span => builder.text settings source content span
  | .comment content span => builder.comment settings content span
  | .malformed content span =>
    (builder.report [.errorAt span (.malformedTag content)]).text settings source content span

def finish (settings : Settings) (builder : Builder) : Builder :=
  builder.closeAllUnmatched settings builder.opened.length

end Builder

/-- Reads a template.  Spans are byte offsets into `source`. -/
def Document.parse (settings : Settings) (source : String) : Document × List Diagnostic :=
  let builder := ((scan source).foldl (Builder.token settings source) .initial).finish settings
  (⟨builder.root, builder.nextId⟩, builder.diagnostics)

end Templating.Template
