import Templating.Proofs.Template.Collapsing
import Templating.Proofs.Template.Rules
import Templating.Proofs.Template.Steps
/-!
# Two readings of one template

A template is read once with its blanks preserved and once with texts condensed.  At
each token the two readings are in the same state, but for texts without
expressions, and but for runs of blanks inside expressions.
-/
set_option autoImplicit false

namespace Templating.Template

open Templating.Text Templating.Data Templating.Markup

def TextRun.bindings (run : TextRun) : List String := run.segments.filterMap Segment.binding?

mutual

def Element.bindings : Element → List String
  | ⟨_, children, branches⟩ => bindingsOfNodes children ++ bindingsOfBranches branches

def Node.bindings : Node → List String
  | .element element => element.bindings
  | .text run => run.bindings
  | .comment _ => []

def bindingsOfNodes : List Node → List String
  | [] => []
  | node :: rest => node.bindings ++ bindingsOfNodes rest

def bindingsOfBranches : List Branch → List String
  | [] => []
  | ⟨_, block⟩ :: rest => block.bindings ++ bindingsOfBranches rest

end

def Document.bindings (document : Document) : List String :=
  (document.root.map Element.bindings).getD []

/-- The expression as it was, or with its runs of blanks as single spaces. -/
def IsSameOrCollapsed (kept condensed : String) : Prop := condensed = kept ∨ condensed = collapsed kept

/-! ## Trees -/

/-- The expressions of two texts that can be seen. -/
structure TextRun.Matches (run other : TextRun) : Prop where
  bindings : List.Forall₂ IsSameOrCollapsed run.bindings other.bindings
  visible : run.isBlankSpace = false
  visibleOther : other.isBlankSpace = false

/-- Texts without expressions do not count. -/
inductive NodesMatch (related : Element → Element → Prop) : List Node → List Node → Prop where
  | nil : NodesMatch related [] []
  | element {element other : Element} {nodes others : List Node} (first : related element other)
      (rest : NodesMatch related nodes others) :
    NodesMatch related (.element element :: nodes) (.element other :: others)
  | comment (comment : Comment) {nodes others : List Node} (rest : NodesMatch related nodes others) :
    NodesMatch related (.comment comment :: nodes) (.comment comment :: others)
  | text {run other : TextRun} {nodes others : List Node} (first : run.Matches other)
      (rest : NodesMatch related nodes others) :
    NodesMatch related (.text run :: nodes) (.text other :: others)
  | skip {run : TextRun} {nodes others : List Node} (plain : run.bindings = [])
      (rest : NodesMatch related nodes others) : NodesMatch related (.text run :: nodes) others
  | skipOther {run : TextRun} {nodes others : List Node} (plain : run.bindings = [])
      (rest : NodesMatch related nodes others) : NodesMatch related nodes (.text run :: others)

inductive BranchesMatch (related : Element → Element → Prop) : List Branch → List Branch → Prop where
  | nil : BranchesMatch related [] []
  | cons (condition : Option String) {block other : Element} {branches others : List Branch}
      (first : related block other) (rest : BranchesMatch related branches others) :
    BranchesMatch related (⟨condition, block⟩ :: branches) (⟨condition, other⟩ :: others)

inductive Element.Matches : Element → Element → Prop where
  | intro (head : Head) {children others : List Node} {branches otherBranches : List Branch}
      (inside : NodesMatch Element.Matches children others)
      (beside : BranchesMatch Element.Matches branches otherBranches) :
    Element.Matches ⟨head, children, branches⟩ ⟨head, others, otherBranches⟩

section Nodes

variable {related : Element → Element → Prop} {nodes others : List Node}

theorem NodesMatch.append {more otherMore : List Node} (first : NodesMatch related nodes others)
    (second : NodesMatch related more otherMore) :
    NodesMatch related (nodes ++ more) (others ++ otherMore) := by
  induction first with
  | nil => exact second
  | element first _ ih => exact .element first ih
  | comment comment _ ih => exact .comment comment ih
  | text first _ ih => exact .text first ih
  | skip plain _ ih => exact .skip plain ih
  | skipOther plain _ ih => exact .skipOther plain ih

theorem NodesMatch.reverse (nodesMatch : NodesMatch related nodes others) :
    NodesMatch related nodes.reverse others.reverse := by
  induction nodesMatch with
  | nil => exact .nil
  | element first _ ih => simpa using ih.append (.element first .nil)
  | comment comment _ ih => simpa using ih.append (.comment comment .nil)
  | text first _ ih => simpa using ih.append (.text first .nil)
  | skip plain _ ih => simpa using ih.append (.skip plain .nil)
  | skipOther plain _ ih => simpa using ih.append (.skipOther plain .nil)

theorem NodesMatch.dropBlank (nodesMatch : NodesMatch related nodes others) :
    NodesMatch related (nodes.dropWhile Node.isBlankSpace) others := by
  induction nodesMatch with
  | nil => exact .nil
  | element first rest _ => exact .element first rest
  | comment comment rest _ => exact .comment comment rest
  | text first rest _ =>
    rw [List.dropWhile_cons_of_neg (by simp [Node.isBlankSpace, first.visible])]
    exact .text first rest
  | @skip run nodes others plain rest ih =>
    rw [List.dropWhile_cons]
    split
    · exact ih
    · exact .skip plain rest
  | skipOther plain _ ih => exact .skipOther plain ih

theorem NodesMatch.dropOtherBlank (nodesMatch : NodesMatch related nodes others) :
    NodesMatch related nodes (others.dropWhile Node.isBlankSpace) := by
  induction nodesMatch with
  | nil => exact .nil
  | element first rest _ => exact .element first rest
  | comment comment rest _ => exact .comment comment rest
  | text first rest _ =>
    rw [List.dropWhile_cons_of_neg (by simp [Node.isBlankSpace, first.visibleOther])]
    exact .text first rest
  | skip plain _ ih => exact .skip plain ih
  | skipOther plain rest ih =>
    rw [List.dropWhile_cons]
    split
    · exact ih
    · exact .skipOther plain rest

theorem NodesMatch.withoutTrailingSpaces (nodesMatch : NodesMatch related nodes others) :
    NodesMatch related (withoutTrailingSpaces nodes) (withoutTrailingSpaces others) :=
  nodesMatch.reverse.dropBlank.dropOtherBlank.reverse

theorem NodesMatch.dropToElement (nodesMatch : NodesMatch related nodes others) :
    NodesMatch related (dropToElement nodes).1 (dropToElement others).1 := by
  induction nodesMatch with
  | nil => exact .nil
  | element first rest _ => exact .element first rest
  | comment comment _ ih => exact ih
  | text first _ ih => exact ih
  | skip plain _ ih => exact ih
  | skipOther plain _ ih => exact ih

theorem dropToElement_cases (nodes : List Node) :
    (dropToElement nodes).1 = [] ∨ ∃ element rest, (dropToElement nodes).1 = .element element :: rest := by
  induction nodes with
  | nil => exact .inl rfl
  | cons first earlier ih =>
    cases first with
    | text run => exact ih
    | comment comment => exact ih
    | element element => exact .inr ⟨element, earlier, rfl⟩

end Nodes

theorem BranchesMatch.append {related : Element → Element → Prop}
    {branches others more otherMore : List Branch} (first : BranchesMatch related branches others)
    (second : BranchesMatch related more otherMore) :
    BranchesMatch related (branches ++ more) (others ++ otherMore) := by
  induction first with
  | nil => exact second
  | cons condition first _ ih => exact .cons condition first ih

/-! ## Elements -/

section Elements

variable {element other parent otherParent branch otherBranch : Element}

theorem Element.Matches.head (elements : element.Matches other) : other.head = element.head := by
  cases elements
  rfl

theorem Element.Matches.children (elements : element.Matches other) :
    NodesMatch Element.Matches element.children other.children := by
  cases elements
  assumption

theorem Element.Matches.withChildren (elements : element.Matches other) {children others : List Node}
    (inside : NodesMatch Element.Matches children others) :
    ({ element with children } : Element).Matches { other with children := others } := by
  cases elements with
  | intro head _ beside => exact .intro head inside beside

theorem Element.Matches.withHead (elements : element.Matches other) (head : Head) :
    ({ element with head } : Element).Matches { other with head } := by
  cases elements with
  | intro _ inside beside => exact .intro head inside beside

theorem Element.Matches.addChild (parents : parent.Matches otherParent) {child otherChild : Node}
    (children : NodesMatch Element.Matches [child] [otherChild]) :
    (parent.addChild child).Matches (otherParent.addChild otherChild) :=
  parents.withChildren (parents.children.append children)

theorem Element.Matches.skip (parents : parent.Matches otherParent) {run : TextRun}
    (plain : run.bindings = []) : (parent.addChild (.text run)).Matches otherParent := by
  cases parents with
  | intro head inside beside =>
    refine .intro head ?_ beside
    simpa using inside.append (.skip plain .nil)

theorem Element.Matches.skipOther (parents : parent.Matches otherParent) {run : TextRun}
    (plain : run.bindings = []) : parent.Matches (otherParent.addChild (.text run)) := by
  cases parents with
  | intro head inside beside =>
    refine .intro head ?_ beside
    simpa using inside.append (.skipOther plain .nil)

theorem Element.Matches.addBranch (elements : element.Matches other)
    (branches : branch.Matches otherBranch) :
    (element.addBranch branch).Matches (other.addBranch otherBranch) := by
  have head := branches.head
  have block := branches.withHead { branch.head with branchCondition := none }
  cases elements with
  | intro own inside beside =>
    refine .intro own inside (beside.append ?_)
    unfold Element.asBranch
    rw [head]
    exact .cons _ block .nil

theorem Element.Matches.attachBranch (parents : parent.Matches otherParent)
    (branches : branch.Matches otherBranch) :
    (attachBranch parent branch).1.Matches (attachBranch otherParent otherBranch).1 := by
  have dropped := parents.children.reverse.dropToElement
  have shape := dropToElement_cases parent.children.reverse
  have otherShape := dropToElement_cases otherParent.children.reverse
  unfold Templating.Template.attachBranch
  simp only
  generalize (dropToElement parent.children.reverse).1 = backwards at dropped shape ⊢
  generalize (dropToElement otherParent.children.reverse).1 = otherBackwards at dropped otherShape ⊢
  rcases shape with rfl | ⟨previous, earlier, rfl⟩
  · rcases otherShape with rfl | ⟨previous, earlier, rfl⟩
    · exact parents.withChildren .nil
    · cases dropped
  · rcases otherShape with rfl | ⟨otherPrevious, otherEarlier, rfl⟩
    · cases dropped
    · have kept := dropped
      cases dropped with
      | element first rest =>
        simp only [first.head]
        split
        · exact parents.withChildren (NodesMatch.reverse (.element (first.addBranch branches) rest))
        · exact parents.withChildren kept.reverse

end Elements

/-! ## The state of reading -/

namespace Builder

/-- The same is open, up to what is in the texts. -/
structure Matches (kept condensed : Builder) : Prop where
  opened : List.Forall₂ Element.Matches kept.opened condensed.opened
  root : Option.Rel Element.Matches kept.root condensed.root
  nextId : condensed.nextId = kept.nextId
  verbatimRoot : condensed.verbatimRoot = kept.verbatimRoot
  isPreformatted : condensed.isPreformatted = kept.isPreformatted

section Closing

variable {kept condensed : Builder} {element other : Element}

theorem Matches.report (builders : kept.Matches condensed) (diagnostics others : List Diagnostic) :
    (kept.report diagnostics).Matches (condensed.report others) :=
  ⟨builders.opened, builders.root, builders.nextId, builders.verbatimRoot, builders.isPreformatted⟩

theorem Matches.isVerbatim (builders : kept.Matches condensed) :
    condensed.isVerbatim = kept.isVerbatim := by
  rw [Builder.isVerbatim, builders.verbatimRoot, Builder.isVerbatim]

theorem Matches.withOpened (builders : kept.Matches condensed) {opened others : List Element}
    (same : List.Forall₂ Element.Matches opened others) :
    ({ kept with opened } : Builder).Matches { condensed with opened := others } :=
  ⟨same, builders.root, builders.nextId, builders.verbatimRoot, builders.isPreformatted⟩

theorem Matches.place (builders : kept.Matches condensed) (elements : element.Matches other) :
    (kept.place element).Matches (condensed.place other) := by
  have head := elements.head
  have opened := builders.opened
  unfold Builder.place
  generalize given : kept.opened = elementsOpen at opened
  generalize otherGiven : condensed.opened = othersOpen at opened
  cases opened with
  | cons parents outer =>
    simp only [head]
    split
    · exact builders
    · split
      · exact (builders.withOpened (.cons (parents.attachBranch elements) outer)).report _ _
      · exact builders.withOpened (.cons (parents.addChild (.element elements .nil)) outer)
  | nil =>
    have root := builders.root
    simp only
    generalize held : kept.root = tree at root
    generalize otherHeld : condensed.root = otherTree at root
    cases root with
    | none =>
      exact ⟨.nil, .some elements, builders.nextId, builders.verbatimRoot,
        builders.isPreformatted⟩
    | some trees =>
      simp only [head, trees.head]
      split
      · exact ⟨.nil, .some (trees.addBranch elements), builders.nextId,
          builders.verbatimRoot, builders.isPreformatted⟩
      · exact builders.report _ _

end Closing

/-! ## Tokens -/

end Builder

abbrev Settings.preserving (settings : Settings) : Settings := { settings with whitespace := .preserve }

abbrev Settings.condensing (settings : Settings) : Settings := { settings with whitespace := .condense }

namespace Builder

section Tokens

variable {settings : Settings} {kept condensed : Builder} {element other : Element}

theorem Matches.close (builders : kept.Matches condensed) (elements : element.Matches other) :
    (kept.close settings.preserving element).Matches (condensed.close settings.condensing other) := by
  have head := elements.head
  have completed : element.head.complete settings.condensing =
      element.head.complete settings.preserving :=
    @Head.complete_congr settings.preserving settings.condensing rfl rfl rfl element.head
  unfold Builder.close
  simp only [builders.isVerbatim, head, completed, builders.isPreformatted]
  generalize (if kept.isVerbatim then (element.head, [])
    else element.head.complete settings.preserving) = final
  have children : NodesMatch Element.Matches
      (if kept.isPreformatted then element.children else withoutTrailingSpaces element.children)
      (if kept.isPreformatted then other.children else withoutTrailingSpaces other.children) := by
    split
    · exact elements.children
    · exact elements.children.withoutTrailingSpaces
  have placed := (builders.report final.2 final.2).place
    ((elements.withHead final.1).withChildren children)
  unfold Builder.leave
  refine ⟨placed.opened, placed.root, placed.nextId, ?_, ?_⟩
  · simp only [placed.verbatimRoot]
  · simp only [placed.isPreformatted]

theorem Matches.closeUnmatched (builders : kept.Matches condensed) :
    (kept.closeUnmatched settings.preserving).Matches
      (condensed.closeUnmatched settings.condensing) := by
  have opened := builders.opened
  unfold Builder.closeUnmatched
  generalize given : kept.opened = elementsOpen at opened
  generalize otherGiven : condensed.opened = othersOpen at opened
  cases opened with
  | nil => exact builders
  | cons elements outer =>
    exact ((builders.withOpened outer).report _ _).close elements

theorem Matches.closeAllUnmatched (count : Nat) (builders : kept.Matches condensed) :
    (kept.closeAllUnmatched settings.preserving count).Matches
      (condensed.closeAllUnmatched settings.condensing count) := by
  induction count generalizing kept condensed with
  | zero => exact builders
  | succ count ih => exact ih builders.closeUnmatched

theorem Matches.closeMatched (stop : Nat) (builders : kept.Matches condensed) :
    (kept.closeMatched settings.preserving stop).Matches
      (condensed.closeMatched settings.condensing stop) := by
  have opened := builders.opened
  unfold Builder.closeMatched
  generalize given : kept.opened = elementsOpen at opened
  generalize otherGiven : condensed.opened = othersOpen at opened
  cases opened with
  | nil => exact builders
  | cons elements outer =>
    simp only [elements.head]
    exact (builders.withOpened outer).close (elements.withHead _)

theorem Matches.heads (builders : kept.Matches condensed) :
    condensed.opened.map Element.head = kept.opened.map Element.head := by
  have opened := builders.opened
  generalize kept.opened = elements at opened ⊢
  generalize condensed.opened = others at opened ⊢
  induction opened with
  | nil => rfl
  | cons first _ ih => rw [List.map_cons, List.map_cons, first.head, ih]

theorem Matches.depthOf (builders : kept.Matches condensed) (tag : String) :
    condensed.depthOf? tag = kept.depthOf? tag := by
  have depth (builder : Builder) : builder.depthOf? tag =
      (builder.opened.map Element.head).findIdx? fun head => sameIgnoringAsciiCase head.tag tag := by
    rw [List.findIdx?_map]
    rfl
  rw [depth, depth, builders.heads]

theorem Matches.parentIs (builders : kept.Matches condensed) (accepts : Head → Bool) :
    (condensed.opened.head?.any fun parent => accepts parent.head) =
      kept.opened.head?.any fun parent => accepts parent.head := by
  have parent (builder : Builder) : (builder.opened.head?.any fun parent => accepts parent.head) =
      (builder.opened.map Element.head).head?.any accepts := by
    rw [List.head?_map, Option.any_map]
  rw [parent, parent, builders.heads]

theorem Matches.closeThrough (builders : kept.Matches condensed) (tag : String) (span : Span) :
    (kept.closeThrough settings.preserving tag span).Matches
      (condensed.closeThrough settings.condensing tag span) := by
  unfold Builder.closeThrough
  rw [builders.depthOf]
  split
  · exact builders
  · exact (builders.closeAllUnmatched _).closeMatched _

theorem Matches.closeIf (builders : kept.Matches condensed) {closes otherCloses : Bool}
    (same : otherCloses = closes) (tag : String) (span : Span) :
    (if closes then kept.closeThrough settings.preserving tag span else kept).Matches
      (if otherCloses then condensed.closeThrough settings.condensing tag span else condensed) := by
  subst same
  split
  · exact builders.closeThrough tag span
  · exact builders

theorem Matches.closeBefore (builders : kept.Matches condensed) (tag : String) (span : Span) :
    (kept.closeBefore settings.preserving tag span).Matches
      (condensed.closeBefore settings.condensing tag span) := by
  have paragraph := @Matches.closeIf settings _ _ builders _ _
    (congrArg (· && settings.platform.isNonPhrasing tag)
      (builders.parentIs fun head => head.tag == "p")) "p" ⟨span.start, span.start⟩
  exact paragraph.closeIf (congrArg (settings.platform.mayStayOpen tag && ·)
    (paragraph.parentIs fun head => head.tag == tag)) tag ⟨span.start, span.start⟩

theorem Matches.freshHead (builders : kept.Matches condensed) (tag : String)
    (items : List SourceAttribute) (span : Span) :
    condensed.freshHead settings.condensing tag items span =
      kept.freshHead settings.preserving tag items span := by
  have namespaces := congrArg (fun heads : List Head => heads.head?.bind Head.namespaceName)
    builders.heads
  simp only [List.head?_map, Option.bind_map] at namespaces
  have parents : (condensed.opened.head?.bind fun parent => parent.head.namespaceName) =
      kept.opened.head?.bind fun parent => parent.head.namespaceName := namespaces
  simp only [Builder.freshHead, builders.nextId, parents]

theorem Matches.enter (builders : kept.Matches condensed) (head : Head) :
    condensed.enter head = kept.enter head := by
  rw [Builder.enter, builders.isVerbatim, builders.verbatimRoot, Builder.enter]

theorem Matches.startTag (builders : kept.Matches condensed) (tag : String)
    (attributes : List SourceAttribute) (selfClosing : Bool) (span : Span) :
    (kept.startTag settings.preserving tag attributes selfClosing span).Matches
      (condensed.startTag settings.condensing tag attributes selfClosing span) := by
  have outside := @Matches.closeBefore settings _ _ builders tag span
  unfold Builder.startTag
  simp only
  generalize kept.closeBefore settings.preserving tag span = first at outside ⊢
  generalize condensed.closeBefore settings.condensing tag span = second at outside ⊢
  rw [outside.freshHead, outside.enter]
  generalize first.enter _ = found
  generalize (distinctAttributes tag [] attributes).2 ++ _ ++ _ ++
    (if first.opened.isEmpty && first.root.isNone then rootDiagnostics found.1 else []) = diagnostics
  generalize (distinctAttributes tag [] attributes).2 ++ _ ++ _ ++
    (if second.opened.isEmpty && second.root.isNone then rootDiagnostics found.1 else []) = others
  have inside : Matches
      ({ first with
        nextId := first.nextId + 1
        verbatimRoot := found.2.1
        isPreformatted := first.isPreformatted || settings.platform.isPreformatted tag
        : Builder }.report diagnostics)
      ({ second with
        nextId := second.nextId + 1
        verbatimRoot := found.2.1
        isPreformatted := second.isPreformatted || settings.platform.isPreformatted tag
        : Builder }.report others) := by
    refine ⟨outside.opened, outside.root, ?_, rfl, ?_⟩
    · exact congrArg (· + 1) outside.nextId
    · exact congrArg (· || settings.platform.isPreformatted tag) outside.isPreformatted
  have element : Element.Matches ⟨found.1, [], []⟩ ⟨found.1, [], []⟩ := .intro _ .nil .nil
  by_cases closes : (settings.platform.isUnary tag || selfClosing) = true
  · rw [if_pos closes, if_pos closes]
    exact inside.close element
  · rw [if_neg closes, if_neg closes]
    exact inside.withOpened (.cons element outside.opened)

theorem Matches.endTag (builders : kept.Matches condensed) (tag : String) (span : Span) :
    (kept.endTag settings.preserving tag span).Matches
      (condensed.endTag settings.condensing tag span) := by
  unfold Builder.endTag
  rw [builders.depthOf, builders.nextId]
  split
  · exact builders.closeThrough tag span
  · split
    · have counted : Matches { kept with nextId := kept.nextId + 1 }
          { condensed with nextId := kept.nextId + 1 } :=
        ⟨builders.opened, builders.root, rfl, builders.verbatimRoot, builders.isPreformatted⟩
      exact counted.close (.intro _ .nil .nil)
    · split
      · exact (builders.startTag "p" [] false span).closeThrough "p" span
      · exact builders.report _ _

theorem Matches.comment (builders : kept.Matches condensed) (content : String) (span : Span) :
    (kept.comment settings.preserving content span).Matches
      (condensed.comment settings.condensing content span) := by
  have opened := builders.opened
  unfold Builder.comment updateParent
  simp only [builders.nextId]
  generalize given : kept.opened = elementsOpen at opened
  generalize otherGiven : condensed.opened = othersOpen at opened
  cases opened with
  | nil =>
    simp only [List.isEmpty_nil, Bool.not_true, Bool.and_false, Bool.false_eq_true, if_false]
    exact builders
  | cons parents outer =>
    simp only [List.isEmpty_cons]
    split
    · exact ⟨.cons (parents.addChild (.comment _ .nil)) outer, builders.root, rfl,
        builders.verbatimRoot, builders.isPreformatted⟩
    · exact builders

/-! ## Texts -/

section Texts

variable (solid : IsSolid settings.delimiters.opening.toList)
    (solidClosing : IsSolid settings.delimiters.closing.toList)

theorem writtenText_blank (settings : Settings) (parent : Element) {raw : String}
    (blank : allBlank raw = true) :
    writtenText settings parent false raw = "" ∨ writtenText settings parent false raw = " " := by
  have plain : textContent settings parent false raw = "" ∨ textContent settings parent false raw = " " := by
    unfold textContent
    simp only [blank, Bool.not_true, Bool.or_false, Bool.false_eq_true, if_false]
    repeat' split
    all_goals simp
  unfold writtenText
  simp only
  rcases plain with same | same
  · rw [same]
    exact .inl (ite_self _)
  · rw [same]
    exact .inr (ite_self _)

theorem writtenText_visible {parent other : Element} (same : other.head = parent.head) {raw : String}
    (visible : allBlank raw = false) :
    writtenText settings.condensing other false raw =
      collapsed (writtenText settings.preserving parent false raw) := by
  have plain (settings : Settings) (parent : Element) : textContent settings parent false raw =
      if isRawTextTag parent.head.tag then raw else decodeText raw := by
    simp [textContent, visible]
  simp only [writtenText, plain, same]
  rfl

include solid

theorem bindingsIn_space {content : String} (out : content = "" ∨ content = " ") :
    bindingsIn settings.delimiters content = [] := by
  refine bindingsIn_blank solid ?_
  rcases out with rfl | rfl
  · exact fun _ held => by cases held
  · intro c held
    obtain rfl : c = ' ' := by simpa using held
    rfl

theorem addedText_bindings (raw : String) (span : Span) (builder : Builder) (parent : Element) :
    (addedText settings raw span builder parent).bindings =
      if builder.isVerbatim then []
      else bindingsIn settings.delimiters (writtenText settings parent builder.isPreformatted raw) := by
  unfold addedText TextRun.bindings writtenSegments
  generalize writtenText settings parent builder.isPreformatted raw = content
  cases builder.isVerbatim with
  | true => rfl
  | false =>
    simp only [Bool.false_or, Bool.false_eq_true, if_false]
    split
    · next space => rw [bindingsIn_space solid (.inr (eq_of_beq space)), List.filterMap_nil]
    · rfl

theorem addedText_silent {raw : String} {span : Span} {builder : Builder} {parent : Element}
    (out : LeavesOut settings raw builder parent ∨
      (addedText settings raw span builder parent).isBlankSpace = true) :
    (addedText settings raw span builder parent).bindings = [] := by
  rw [addedText_bindings solid]
  split
  · rfl
  · refine bindingsIn_space solid ?_
    rcases out with (nothing | ⟨space, -⟩) | space
    · exact .inl nothing
    · exact .inr space
    · exact .inr (eq_of_beq space)

include solidClosing

/-- The expressions of a text are the same on both sides, or condensed where the text is. -/
theorem writtenText_bindings {parent other : Element} (same : other.head = parent.head)
    (isPreformatted : Bool) (raw : String) :
    List.Forall₂ IsSameOrCollapsed
      (bindingsIn settings.delimiters
        (writtenText settings.preserving parent isPreformatted raw))
      (bindingsIn settings.delimiters
        (writtenText settings.condensing other isPreformatted raw)) := by
  cases isPreformatted with
  | true =>
    have content (settings : Settings) (parent : Element) : writtenText settings parent true raw =
        if isRawTextTag parent.head.tag then raw else decodeText raw := by
      simp [writtenText, textContent]
    rw [content, content, same]
    exact List.forall₂_same.mpr fun _ _ => .inl rfl
  | false =>
    cases blank : allBlank raw with
    | true =>
      rw [bindingsIn_space solid (writtenText_blank settings.preserving parent blank),
        bindingsIn_space solid (writtenText_blank settings.condensing other blank)]
      exact .nil
    | false =>
      rw [writtenText_visible same blank, bindingsIn_collapsed solid solidClosing]
      exact List.forall₂_map_right_iff.mpr (List.forall₂_same.mpr fun _ _ => .inr rfl)

theorem addedText_matches (builders : kept.Matches condensed) {parent other : Element}
    (same : other.head = parent.head) (raw : String) (span : Span) :
    List.Forall₂ IsSameOrCollapsed (addedText settings.preserving raw span kept parent).bindings
      (addedText settings.condensing raw span condensed other).bindings := by
  rw [@addedText_bindings settings.preserving solid, @addedText_bindings settings.condensing solid,
    builders.isVerbatim, builders.isPreformatted]
  split
  · exact .nil
  · exact writtenText_bindings solid solidClosing same _ raw

theorem addedText_nodes (builders : kept.Matches condensed) {parent other : Element}
    (same : other.head = parent.head) (raw : String) (span : Span) :
    NodesMatch Element.Matches [.text (addedText settings.preserving raw span kept parent)]
      [.text (addedText settings.condensing raw span condensed other)] := by
  have bindings := addedText_matches solid solidClosing builders same raw span
  have silent := @addedText_silent settings.preserving solid raw span kept parent
  have otherSilent := @addedText_silent settings.condensing solid raw span condensed other
  generalize addedText settings.preserving raw span kept parent = run at bindings silent ⊢
  generalize addedText settings.condensing raw span condensed other = otherRun at bindings otherSilent ⊢
  cases held : run.bindings with
  | nil =>
    rw [held] at bindings
    exact .skip held (.skipOther (List.forall₂_nil_left_iff.mp bindings) .nil)
  | cons first rest =>
    refine .text ⟨bindings, ?_, ?_⟩ .nil
    · by_contra blank
      rw [silent (.inr (by simpa using blank))] at held
      cases held
    · by_contra blank
      rw [otherSilent (.inr (by simpa using blank)), held] at bindings
      cases bindings

theorem Matches.text (builders : kept.Matches condensed) (source raw : String) (span : Span) :
    (kept.text settings.preserving source raw span).Matches
      (condensed.text settings.condensing source raw span) := by
  have opened := builders.opened
  have first := text_reads settings.preserving source raw span kept
  have second := text_reads settings.condensing source raw span condensed
  generalize kept.text settings.preserving source raw span = after at first ⊢
  generalize condensed.text settings.condensing source raw span = otherAfter at second ⊢
  have count : condensed.nextId + 1 = kept.nextId + 1 := congrArg (· + 1) builders.nextId
  cases first with
  | leftOut diagnostics leaves =>
    cases second with
    | leftOut others _ =>
      exact ⟨opened, builders.root, count, builders.verbatimRoot, builders.isPreformatted⟩
    | @added others other otherOuter otherGiven _ =>
      refine ⟨?_, builders.root, count, builders.verbatimRoot, builders.isPreformatted⟩
      show List.Forall₂ Element.Matches kept.opened _
      rw [otherGiven] at opened
      generalize kept.opened = elementsOpen at opened leaves ⊢
      cases opened with
      | cons parents outer =>
        have none := @addedText_silent settings.preserving solid raw span kept _ (.inl (leaves _ rfl))
        have bindings := addedText_matches solid solidClosing builders parents.head raw span
        rw [none] at bindings
        exact .cons (parents.skipOther (List.forall₂_nil_left_iff.mp bindings)) outer
  | @added diagnostics parent outer given _ =>
    cases second with
    | leftOut others leaves =>
      refine ⟨?_, builders.root, count, builders.verbatimRoot, builders.isPreformatted⟩
      show List.Forall₂ Element.Matches _ condensed.opened
      rw [given] at opened
      generalize condensed.opened = othersOpen at opened leaves ⊢
      cases opened with
      | cons parents outer =>
        have none := @addedText_silent settings.condensing solid raw span condensed _ (.inl (leaves _ rfl))
        have bindings := addedText_matches solid solidClosing builders parents.head raw span
        rw [none] at bindings
        exact .cons (parents.skip (List.forall₂_nil_right_iff.mp bindings)) outer
    | added others otherGiven otherStays =>
      rw [given, otherGiven] at opened
      cases opened with
      | cons parents outer =>
        refine ⟨?_, builders.root, count, builders.verbatimRoot, builders.isPreformatted⟩
        exact .cons (parents.addChild
          (addedText_nodes solid solidClosing builders parents.head raw span)) outer

theorem Matches.token (builders : kept.Matches condensed) (source : String) (token : Token) :
    (kept.token settings.preserving source token).Matches
      (condensed.token settings.condensing source token) := by
  cases token with
  | startTag name attributes selfClosing span => exact builders.startTag name attributes selfClosing span
  | endTag name span => exact builders.endTag name span
  | text content span => exact builders.text solid solidClosing source content span
  | comment content span => exact builders.comment content span
  | malformed content span =>
    exact (builders.report _ _).text solid solidClosing source content span

theorem Matches.tokens (builders : kept.Matches condensed) (source : String) (tokens : List Token) :
    (tokens.foldl (Builder.token settings.preserving source) kept).Matches
      (tokens.foldl (Builder.token settings.condensing source) condensed) := by
  induction tokens generalizing kept condensed with
  | nil => exact builders
  | cons token rest ih => exact ih (builders.token solid solidClosing source token)

end Texts

end Tokens

end Builder

/-! ## The order of expressions -/

theorem NodesMatch.bindings {related : Element → Element → Prop} {nodes others : List Node}
    (nodesMatch : NodesMatch related nodes others)
    (elements : ∀ element other, .element element ∈ nodes → related element other →
      List.Forall₂ IsSameOrCollapsed element.bindings other.bindings) :
    List.Forall₂ IsSameOrCollapsed (bindingsOfNodes nodes) (bindingsOfNodes others) := by
  induction nodesMatch with
  | nil => exact .nil
  | element first _ ih =>
    refine List.rel_append (elements _ _ List.mem_cons_self first) (ih ?_)
    exact fun element other held => elements element other (List.mem_cons_of_mem _ held)
  | comment comment _ ih =>
    exact ih fun element other held => elements element other (List.mem_cons_of_mem _ held)
  | text first _ ih =>
    refine List.rel_append first.bindings (ih ?_)
    exact fun element other held => elements element other (List.mem_cons_of_mem _ held)
  | skip plain _ ih =>
    rw [bindingsOfNodes, Node.bindings, plain]
    exact ih fun element other held => elements element other (List.mem_cons_of_mem _ held)
  | @skipOther run nodes others plain _ ih =>
    rw [bindingsOfNodes, Node.bindings, plain]
    exact ih elements

theorem BranchesMatch.bindings {related : Element → Element → Prop} {branches others : List Branch}
    (branchesMatch : BranchesMatch related branches others)
    (elements : ∀ branch ∈ branches, ∀ other, related branch.block other →
      List.Forall₂ IsSameOrCollapsed branch.block.bindings other.bindings) :
    List.Forall₂ IsSameOrCollapsed (bindingsOfBranches branches) (bindingsOfBranches others) := by
  induction branchesMatch with
  | nil => exact .nil
  | cons condition first _ ih =>
    refine List.rel_append (elements _ List.mem_cons_self _ first) (ih ?_)
    exact fun branch held => elements branch (List.mem_cons_of_mem _ held)

theorem Element.Matches.bindings {element other : Element} (elements : element.Matches other) :
    List.Forall₂ IsSameOrCollapsed element.bindings other.bindings := by
  cases elements with
  | @intro head children others branches otherBranches inside beside =>
    refine List.rel_append (inside.bindings fun child _ held matched => ?_)
      (beside.bindings fun branch held _ matched => ?_)
    · have smaller : sizeOf child < sizeOf children := by
        have member := List.sizeOf_lt_of_mem held
        rw [Node.element.sizeOf_spec] at member
        omega
      exact matched.bindings
    · have smaller : sizeOf branch.block < sizeOf branches := by
        have member := List.sizeOf_lt_of_mem held
        have part : sizeOf branch.block < sizeOf branch := by
          obtain ⟨condition, block⟩ := branch
          simp only [Branch.mk.sizeOf_spec]
          omega
        omega
      exact matched.bindings
termination_by sizeOf element
decreasing_by
  all_goals
    rw [Element.mk.sizeOf_spec]
    omega

/-- The option on blanks changes no expression but for runs of blanks inside it. -/
theorem parse_bindings {settings : Settings} (solid : IsSolid settings.delimiters.opening.toList)
    (solidClosing : IsSolid settings.delimiters.closing.toList) (source : String) :
    List.Forall₂ IsSameOrCollapsed (Document.parse settings.preserving source).1.bindings
      (Document.parse settings.condensing source).1.bindings := by
  have start : Builder.initial.Matches .initial := ⟨.nil, .none, rfl, rfl, rfl⟩
  have read := start.tokens solid solidClosing source (scan source)
  have length := congrArg List.length read.heads
  rw [List.length_map, List.length_map] at length
  have finished := @Builder.Matches.closeAllUnmatched settings _ _
    ((scan source).foldl (Builder.token settings.preserving source) .initial).opened.length read
  have root := finished.root
  unfold Document.bindings Document.parse Builder.finish
  simp only [length]
  generalize (Builder.closeAllUnmatched settings.preserving _ _).root = first at root ⊢
  generalize (Builder.closeAllUnmatched settings.condensing _ _).root = second at root ⊢
  cases root with
  | none => exact .nil
  | some trees => exact trees.bindings

/-- The blanks are part of a string. -/
def spacedSource : String := "<p>\x7b\x7b 'a  b' \x7d\x7d <b>\x7b\x7b c \x7d\x7d</b></p>"

theorem spacedSource_bindings :
    IsSolid Web.settings.delimiters.opening.toList ∧ IsSolid Web.settings.delimiters.closing.toList ∧
      List.Forall₂ IsSameOrCollapsed (Document.parse Web.settings.preserving spacedSource).1.bindings
        (Document.parse Web.settings.condensing spacedSource).1.bindings :=
  ⟨by decide +kernel, by decide +kernel,
    parse_bindings (by decide +kernel) (by decide +kernel) spacedSource⟩

/-- The expressions are not always the same, even if there is no error on either side. -/
theorem spacedSource_differs :
    ¬ ∀ source : String,
      errorsOf (Document.parse Web.settings.preserving source).2 = [] →
        errorsOf (Document.parse Web.settings.condensing source).2 = [] →
          (Document.parse Web.settings.condensing source).1.bindings =
            (Document.parse Web.settings.preserving source).1.bindings := by
  intro same
  have kept : (Document.parse Web.settings.preserving spacedSource).1.bindings = ["'a  b'", "c"] := by
    decide +kernel
  have condensed : (Document.parse Web.settings.condensing spacedSource).1.bindings = ["'a b'", "c"] := by
    decide +kernel
  have equal := same spacedSource (by decide +kernel) (by decide +kernel)
  rw [kept, condensed] at equal
  exact absurd equal (by decide)

end Templating.Template
