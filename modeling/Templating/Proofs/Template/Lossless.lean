import Templating.Proofs.Template.Walk
/-!
# Nothing is lost

What has been read so far has a walk as well: through the root, and into each
element that is open.  A token extends it by its own visits or is reported.
-/
set_option autoImplicit false

namespace Templating.Template

open Templating.Text Templating.Data Templating.Markup Templating.Rendering

/-- What holds of an open element: no branch has joined it, and it is not left
out when it closes. -/
structure Element.IsOpen (element : Element) : Prop where
  branchless : element.branches = []
  allowed : element.head.isForbidden = false

theorem Element.IsOpen.visits {element : Element} (isOpen : element.IsOpen) :
    element.visits = .entered element.head.tag :: visitsOfNodes element.children ++ [.left] := by
  rw [Element.visits_eq, isOpen.branchless]
  rfl

/-- The walk into open elements, given from the inside out. -/
def visitsOfOpen : List Element → List Visit
  | [] => []
  | element :: outer =>
    visitsOfOpen outer ++ .entered element.head.tag :: visitsOfNodes element.children

namespace Builder

def IsClean (builder : Builder) : Prop := errorsOf builder.diagnostics = []

def AllOpen (builder : Builder) : Prop := ∀ element ∈ builder.opened, element.IsOpen

def openTags (builder : Builder) : List String :=
  builder.opened.map fun element => element.head.tag

def visits (builder : Builder) : List Visit :=
  (builder.root.map Element.visits).getD [] ++ visitsOfOpen builder.opened

/-- The passage leads from what has been read before to what has been read
after. -/
structure Reached (before after : Builder) (passage : Passage) : Prop where
  allOpen : after.AllOpen
  openTags : after.openTags = passage.1
  visits : after.visits = before.visits ++ passage.2

/-- Where there is no error after, there is none before, and the passage is
made. -/
def Passes (before after : Builder) (passage : Passage) : Prop :=
  after.IsClean → before.IsClean ∧ (before.AllOpen → Reached before after passage)

theorem Passes.andThen {before middle after : Builder} {passage : Passage}
    {next : List String → Passage} (first : Passes before middle passage)
    (second : Passes middle after (next middle.openTags)) :
    Passes before after (passage.andThen next) := by
  intro clean
  obtain ⟨cleanMiddle, further⟩ := second clean
  obtain ⟨cleanBefore, reached⟩ := first cleanMiddle
  refine ⟨cleanBefore, fun allOpen => ?_⟩
  have here := reached allOpen
  have there := further here.allOpen
  rw [here.openTags] at there
  exact ⟨there.allOpen, there.openTags, by
    rw [there.visits, here.visits, List.append_assoc, Passage.andThen]⟩

theorem Passes.of_unclean {before after : Builder} (unclean : ¬after.IsClean) (passage : Passage) :
    Passes before after passage := fun clean => absurd clean unclean

theorem Passes.stay {before after : Builder} (opened : after.opened = before.opened)
    (root : after.root = before.root) (clean : after.IsClean → before.IsClean) :
    Passes before after (before.openTags, []) := by
  refine fun cleanAfter => ⟨clean cleanAfter, fun allOpen => ⟨?_, ?_, ?_⟩⟩
  · exact fun element held => allOpen element (opened ▸ held)
  · rw [openTags, opened, openTags]
  · rw [visits, opened, root, visits, List.append_nil]

theorem Passes.behind {before middle after : Builder} {passage : Passage}
    (opened : middle.opened = before.opened) (root : middle.root = before.root)
    (clean : middle.IsClean → before.IsClean) (passes : Passes middle after passage) :
    Passes before after passage := by
  intro cleanAfter
  obtain ⟨cleanMiddle, passed⟩ := passes cleanAfter
  refine ⟨clean cleanMiddle, fun allOpen => ?_⟩
  have reached := passed (by rwa [AllOpen, opened])
  exact ⟨reached.allOpen, reached.openTags, by
    rw [reached.visits, visits, opened, root, ← visits]⟩

theorem isClean_report {builder : Builder} {diagnostics : List Diagnostic} :
    (builder.report diagnostics).IsClean ↔ builder.IsClean ∧ errorsOf diagnostics = [] := by
  rw [IsClean, report, errorsOf_append, List.append_eq_nil_iff, IsClean]

theorem unclean_errorAt (builder : Builder) (span : Span) (problem : Problem) :
    ¬(builder.report [.errorAt span problem]).IsClean := fun clean =>
  errorsOf_errorAt _ _ _ (isClean_report.mp clean).2

theorem AllOpen.parts {builder : Builder} (allOpen : builder.AllOpen) {parent : Element}
    {outer : List Element} (given : builder.opened = parent :: outer) :
    parent.IsOpen ∧ ∀ element ∈ outer, element.IsOpen := by
  rw [AllOpen, given] at allOpen
  exact List.forall_mem_cons.mp allOpen

theorem Reached.ofParent {before after : Builder} {parent changed : Element} {outer : List Element}
    (allOpen : before.AllOpen) (given : before.opened = parent :: outer)
    (opened : after.opened = changed :: outer) (root : after.root = before.root)
    (head : changed.head = parent.head) (branches : changed.branches = parent.branches)
    {visits : List Visit}
    (children : visitsOfNodes changed.children = visitsOfNodes parent.children ++ visits) :
    Reached before after (before.openTags, visits) := by
  obtain ⟨isOpen, others⟩ := allOpen.parts given
  refine ⟨?_, ?_, ?_⟩
  · rw [AllOpen, opened]
    exact List.forall_mem_cons.mpr
      ⟨⟨branches.trans isOpen.branchless, (congrArg _ head).trans isOpen.allowed⟩, others⟩
  · simp only [Builder.openTags, opened, given, List.map_cons, head]
  · rw [Builder.visits, opened, root, Builder.visits, given, visitsOfOpen, visitsOfOpen, children,
      head]
    simp

theorem Reached.ofRoot {before after : Builder} (given : before.opened = [])
    (opened : after.opened = []) {visits : List Visit}
    (root : (after.root.map Element.visits).getD [] =
      (before.root.map Element.visits).getD [] ++ visits) :
    Reached before after (before.openTags, visits) := by
  refine ⟨?_, ?_, ?_⟩
  · intro element inside
    rw [opened] at inside
    cases inside
  · rw [Builder.openTags, opened, Builder.openTags, given]
  · rw [Builder.visits, opened, Builder.visits, given, root, visitsOfOpen, List.append_nil,
      List.append_nil]

/-! ## Closing -/

theorem attachBranch_parent (parent branch : Element) :
    (attachBranch parent branch).1.head = parent.head ∧
      (attachBranch parent branch).1.branches = parent.branches := by
  unfold attachBranch
  simp only
  split
  · split <;> exact ⟨rfl, rfl⟩
  · exact ⟨rfl, rfl⟩

theorem place_reached {builder : Builder} {element : Element}
    (clean : (builder.place element).IsClean) :
    builder.IsClean ∧ (element.IsOpen → builder.AllOpen →
      Reached builder (builder.place element) (builder.openTags, element.visits)) := by
  unfold place at clean ⊢
  cases given : builder.opened with
  | cons parent outer =>
    rw [given] at clean
    simp only at clean ⊢
    split at clean
    · next forbidden =>
      refine ⟨clean, fun isOpen => ?_⟩
      rw [isOpen.allowed] at forbidden
      cases forbidden
    · next allowed =>
      rw [if_neg allowed]
      split at clean
      · next joins =>
        obtain ⟨cleanBefore, joined⟩ := isClean_report.mp clean
        obtain ⟨head, branches⟩ := attachBranch_parent parent element
        rw [if_pos joins]
        refine ⟨cleanBefore, fun _ allOpen => ?_⟩
        refine Reached.ofParent allOpen given ?_ ?_ head branches (visits_attachBranch joined)
        · rfl
        · rfl
      · next apart =>
        rw [if_neg apart]
        refine ⟨clean, fun _ allOpen => ?_⟩
        refine Reached.ofParent allOpen given ?_ ?_ ?_ ?_
          (visitsOfNodes_addChild parent (.element element))
        all_goals rfl
  | nil =>
    rw [given] at clean
    simp only at clean ⊢
    cases held : builder.root with
    | none =>
      rw [held] at clean
      refine ⟨clean, fun _ _ => .ofRoot given rfl ?_⟩
      rw [held]
      rfl
    | some root =>
      rw [held] at clean
      simp only at clean ⊢
      split at clean
      · next joins =>
        rw [if_pos joins]
        refine ⟨(isClean_report.mp clean).1, fun _ _ => .ofRoot given rfl ?_⟩
        rw [held]
        exact Element.visits_addBranch root element
      · exact absurd clean (unclean_errorAt _ _ _)

section Settings

variable {settings : Settings}

/-- The rules that apply when an element closes keep it on its place. -/
structure KeepsPlace (settings : Settings) : Prop where
  tag : ∀ extension ∈ settings.extensions, extension.Preserves Head.tag
  isForbidden : ∀ extension ∈ settings.extensions, extension.Preserves Head.isForbidden

variable (keeps : KeepsPlace settings)

include keeps

theorem close_reached {builder : Builder} {element : Element}
    (clean : (builder.close settings element).IsClean) :
    builder.IsClean ∧ (element.IsOpen → builder.AllOpen →
      Reached builder (builder.close settings element) (builder.openTags, element.visits)) := by
  unfold close at clean ⊢
  simp only at clean ⊢
  have children : visitsOfNodes (if builder.isPreformatted then element.children
      else withoutTrailingSpaces element.children) = visitsOfNodes element.children := by
    split
    · rfl
    · exact visitsOfNodes_withoutTrailingSpaces element.children
  generalize (if builder.isPreformatted then element.children
    else withoutTrailingSpaces element.children) = kept at children clean ⊢
  have same : (if builder.isVerbatim then (element.head, [])
        else element.head.complete settings).1.tag = element.head.tag ∧
      (if builder.isVerbatim then (element.head, [])
        else element.head.complete settings).1.isForbidden = element.head.isForbidden := by
    split
    · exact ⟨rfl, rfl⟩
    · exact ⟨complete_preserves (fun leaves => leaves.tag) keeps.tag element.head,
        complete_preserves (fun leaves => leaves.isForbidden) keeps.isForbidden element.head⟩
  generalize (if builder.isVerbatim then (element.head, [])
    else element.head.complete settings) = final at same clean ⊢
  obtain ⟨cleanReported, placed⟩ := place_reached clean
  refine ⟨(isClean_report.mp cleanReported).1, fun isOpen allOpen => ?_⟩
  have reached := placed ⟨isOpen.branchless, same.2.trans isOpen.allowed⟩ allOpen
  refine ⟨reached.allOpen, reached.openTags, reached.visits.trans (congrArg _ ?_)⟩
  rw [Element.visits_eq, Element.visits_eq element, same.1, children]

theorem closeMatched_passes {builder : Builder} (nonempty : builder.opened ≠ []) (stop : Nat) :
    Passes builder (builder.closeMatched settings stop) (leaveOpen 1 builder.openTags) := by
  intro clean
  unfold closeMatched at clean ⊢
  cases given : builder.opened with
  | nil => exact absurd given nonempty
  | cons element outer =>
    rw [given] at clean
    obtain ⟨cleanOutside, closed⟩ := close_reached keeps clean
    refine ⟨cleanOutside, fun allOpen => ?_⟩
    obtain ⟨isOpen, others⟩ := allOpen.parts given
    have reached := closed ⟨isOpen.branchless, isOpen.allowed⟩ others
    refine ⟨reached.allOpen, ?_, ?_⟩
    · rw [reached.openTags, leaveOpen, openTags, openTags, given]
      rfl
    · have inner := Element.IsOpen.visits (⟨isOpen.branchless, isOpen.allowed⟩ :
        Element.IsOpen { element with
          head := { element.head with span := ⟨element.head.span.start, stop⟩ } })
      rw [reached.visits, inner, visits, visits, given]
      simp [visitsOfOpen, leaveOpen]

theorem closeUnmatched_unclean {builder : Builder} (nonempty : builder.opened ≠ []) :
    ¬(builder.closeUnmatched settings).IsClean := by
  intro clean
  unfold closeUnmatched at clean
  cases given : builder.opened with
  | nil => exact nonempty given
  | cons element outer =>
    rw [given] at clean
    exact unclean_errorAt _ _ _ (close_reached keeps clean).1

theorem closeAllUnmatched_clean {builder : Builder} {count : Nat}
    (clean : (builder.closeAllUnmatched settings count).IsClean) :
    builder.closeAllUnmatched settings count = builder ∧ (count = 0 ∨ builder.opened = []) := by
  induction count generalizing builder with
  | zero => exact ⟨rfl, .inl rfl⟩
  | succ count ih =>
    rw [closeAllUnmatched] at clean ⊢
    obtain ⟨same, -⟩ := ih clean
    rw [same] at clean
    have none : builder.opened = [] := by
      by_contra nonempty
      exact closeUnmatched_unclean keeps nonempty clean
    exact ⟨by rw [same, closeUnmatched, none], .inr none⟩

omit keeps in
theorem depthOf_eq (tag : String) (builder : Builder) : builder.depthOf? tag =
    builder.openTags.findIdx? fun other => sameIgnoringAsciiCase other tag := by
  rw [openTags, List.findIdx?_map]
  rfl

theorem closeThrough_passes (builder : Builder) (tag : String) (span : Span) :
    Passes builder (builder.closeThrough settings tag span)
      ((leaveThrough? tag builder.openTags).getD (builder.openTags, [])) := by
  unfold closeThrough leaveThrough?
  rw [← depthOf_eq]
  cases found : builder.depthOf? tag with
  | none => exact .stay rfl rfl id
  | some depth =>
    have nonempty : builder.opened ≠ [] := by
      intro none
      rw [depthOf?, none] at found
      cases found
    intro clean
    have cleanInside : (builder.closeAllUnmatched settings depth).IsClean := by
      by_cases none : (builder.closeAllUnmatched settings depth).opened = []
      · simpa only [closeMatched, none] using clean
      · exact (closeMatched_passes keeps none span.stop clean).1
    obtain ⟨same, none | none⟩ := closeAllUnmatched_clean keeps cleanInside
    · subst none
      exact closeMatched_passes keeps nonempty span.stop clean
    · exact absurd none nonempty

omit keeps in
theorem head_openTags (tag : String) (builder : Builder) :
    (builder.opened.head?.any fun element => element.head.tag == tag) =
      builder.openTags.head?.any (· == tag) := by
  rw [openTags, List.head?_map, Option.any_map]

theorem closeParent_passes (builder : Builder) (tag : String) (ends : Bool)
    (here : ends = true → builder.openTags.head?.any (· == tag) = true) (span : Span) :
    Passes builder (if ends then builder.closeThrough settings tag span else builder)
      (leaveOpen (if ends then 1 else 0) builder.openTags) := by
  cases ends with
  | false => exact .stay rfl rfl id
  | true =>
    have passes := closeThrough_passes keeps builder tag span
    have through : leaveThrough? tag builder.openTags = some (leaveOpen 1 builder.openTags) := by
      cases given : builder.openTags with
      | nil => simp [given] at here
      | cons parent outer =>
        have same : parent = tag := by simpa [given] using here
        simp [leaveThrough?, List.findIdx?_cons, same, sameIgnoringAsciiCase]
    rw [through] at passes
    exact passes

theorem closeBefore_passes (builder : Builder) (tag : String) (span : Span) :
    Passes builder (builder.closeBefore settings tag span)
      ((leaveParagraph settings.platform tag builder.openTags).andThen
        (leaveSibling settings.platform tag)) := by
  have paragraph := closeParent_passes keeps builder "p"
    (builder.openTags.head?.any (· == "p") && settings.platform.isNonPhrasing tag)
    (fun ends => (Bool.and_eq_true_iff.mp ends).1) ⟨span.start, span.start⟩
  unfold closeBefore
  simp only [head_openTags]
  generalize (if builder.openTags.head?.any (· == "p") && settings.platform.isNonPhrasing tag then
    builder.closeThrough settings "p" ⟨span.start, span.start⟩ else builder) = outside
    at paragraph ⊢
  refine paragraph.andThen ?_
  exact closeParent_passes keeps outside tag _ (fun ends => (Bool.and_eq_true_iff.mp ends).2) _

/-! ## Tags -/

theorem open_passes {outside inside : Builder} (opened : inside.opened = outside.opened)
    (root : inside.root = outside.root) {head : Head}
    (clean : inside.IsClean → outside.IsClean ∧ head.isForbidden = false) (selfClosing : Bool) :
    Passes outside
      (if settings.platform.isUnary head.tag || selfClosing then inside.close settings ⟨head, [], []⟩
        else { inside with opened := ⟨head, [], []⟩ :: inside.opened })
      (enterTag settings.platform head.tag selfClosing outside.openTags) := by
  have same : inside.openTags = outside.openTags := by rw [openTags, opened, openTags]
  have read : inside.visits = outside.visits := by rw [visits, opened, root, visits]
  unfold enterTag
  split
  · intro cleanAfter
    obtain ⟨cleanInside, closed⟩ := close_reached keeps cleanAfter
    obtain ⟨cleanOutside, allowed⟩ := clean cleanInside
    refine ⟨cleanOutside, fun allOpen => ?_⟩
    have isOpen : Element.IsOpen ⟨head, [], []⟩ := ⟨rfl, allowed⟩
    have reached := closed isOpen (by rwa [AllOpen, opened])
    exact ⟨reached.allOpen, reached.openTags.trans same, by
      rw [reached.visits, read, isOpen.visits]
      rfl⟩
  · intro cleanAfter
    obtain ⟨cleanOutside, allowed⟩ := clean cleanAfter
    refine ⟨cleanOutside, fun allOpen => ⟨?_, ?_, ?_⟩⟩
    · exact List.forall_mem_cons.mpr ⟨⟨rfl, allowed⟩, by rwa [opened]⟩
    · exact congrArg (head.tag :: ·) same
    · rw [← read, visits, visits, visitsOfOpen, visitsOfNodes, List.append_assoc]

theorem startTag_passes (builder : Builder) (tag : String) (attributes : List SourceAttribute)
    (selfClosing : Bool) (span : Span) :
    Passes builder (builder.startTag settings tag attributes selfClosing span)
      (((leaveParagraph settings.platform tag builder.openTags).andThen
        (leaveSibling settings.platform tag)).andThen
          (enterTag settings.platform tag selfClosing)) := by
  have outsidePasses := closeBefore_passes keeps builder tag span
  unfold startTag
  simp only
  generalize builder.closeBefore settings tag span = outside at outsidePasses ⊢
  refine outsidePasses.andThen ?_
  generalize made : outside.freshHead settings tag (distinctAttributes tag [] attributes).1 span =
    fresh
  have kept := enter_keeps outside fresh
  have named : (outside.enter fresh).1.tag = tag := kept.tag.trans (made ▸ rfl)
  clear made
  generalize outside.enter fresh = entered at kept named ⊢
  obtain ⟨head, verbatimRoot, structural⟩ := entered
  subst named
  refine open_passes keeps ?_ ?_ (fun clean => ?_) selfClosing
  · rfl
  · rfl
  · obtain ⟨cleanOutside, reported⟩ := isClean_report.mp clean
    refine ⟨cleanOutside, kept.isForbidden.trans ?_⟩
    rw [errorsOf_append, errorsOf_append, errorsOf_append] at reported
    have allowed := (List.append_eq_nil_iff.mp (List.append_eq_nil_iff.mp
      (List.append_eq_nil_iff.mp reported).1).1).2
    by_contra forbidden
    rw [if_pos (by simpa using forbidden)] at allowed
    exact errorsOf_errorAt _ _ _ allowed

omit keeps in
theorem passage_paragraph {opened : List String} (platform : Platform)
    (paragraph : platform.isUnary "p" = false)
    (outside : opened.head?.any (· == "p") = false) :
    (((leaveParagraph platform "p" opened).andThen (leaveSibling platform "p")).andThen
        (enterTag platform "p" false)).andThen (fun tags => (leaveThrough? "p" tags).getD (tags, [])) =
      (opened, [.entered "p", .left]) := by
  simp [leaveParagraph, leaveSibling, enterTag, leaveThrough?, leaveOpen, Passage.andThen, outside,
    paragraph, List.findIdx?_cons, sameIgnoringAsciiCase]

theorem endTag_passes (paragraph : settings.platform.isUnary "p" = false) (builder : Builder)
    (tag : String) (span : Span) :
    Passes builder (builder.endTag settings tag span) (leaveTag tag builder.openTags) := by
  have through := closeThrough_passes keeps builder tag span
  have unmatched : leaveThrough? tag builder.openTags = none → sameIgnoringAsciiCase tag "p" = true →
      builder.openTags.head?.any (· == "p") = false := by
    intro none same
    rw [leaveThrough?, Option.map_eq_none_iff, List.findIdx?_eq_none_iff] at none
    cases given : builder.openTags with
    | nil => rfl
    | cons parent outer =>
      rw [List.head?_cons, Option.any_some, beq_eq_false_iff_ne]
      rintro rfl
      have other := none "p" (given ▸ List.mem_cons_self)
      rw [sameIgnoringAsciiCase, BEq.comm, ← sameIgnoringAsciiCase, same] at other
      cases other
  have matched : (builder.depthOf? tag).isSome = (leaveThrough? tag builder.openTags).isSome := by
    rw [depthOf_eq, leaveThrough?, Option.isSome_map]
  unfold endTag leaveTag
  rw [matched]
  cases found : leaveThrough? tag builder.openTags with
  | some passage =>
    rw [found] at through
    exact through
  | none =>
    simp only [Option.isSome_none, Bool.false_eq_true, if_false, Option.getD_none]
    split
    · intro clean
      obtain ⟨cleanBefore, closed⟩ := close_reached keeps clean
      have isOpen : Element.IsOpen ⟨Head.new builder.nextId "br" [] span, [], []⟩ := ⟨rfl, rfl⟩
      refine ⟨cleanBefore, fun allOpen => ?_⟩
      have reached := closed isOpen allOpen
      exact ⟨reached.allOpen, reached.openTags, reached.visits⟩
    · split
      · next same =>
        rw [← passage_paragraph settings.platform paragraph (unmatched found same)]
        exact (startTag_passes keeps builder "p" [] false span).andThen
          (closeThrough_passes keeps _ "p" span)
      · exact .of_unclean (unclean_errorAt _ _ _) _

/-! ## Texts -/

omit keeps

theorem decodeText_blank {raw : String} (blank : allBlank raw = true) : decodeText raw = raw := by
  have plain : ∀ source : List Char, source.all isBlank = true →
      decodeWith textReference? 0 source = source := by
    intro source
    induction source with
    | nil => exact fun _ => rfl
    | cons c rest ih =>
      intro blank
      rw [List.all_cons, Bool.and_eq_true] at blank
      have noReference : c ≠ '&' := by
        rintro rfl
        exact absurd blank.1 (by decide)
      rw [decodeWith, if_neg noReference, ih blank.2]
  rw [decodeText, plain raw.toList blank, String.ofList_toList]

theorem shown_blank {content : String} (blank : allBlank content = true) : shown content = [] := by
  rw [shown, blank, if_pos rfl]

theorem shown_contentWithin {raw : String} (blank : allBlank raw = true) (opened : List String) :
    shown (contentWithin opened raw) = [] := by
  rw [contentWithin, decodeText_blank blank, ite_self, shown_blank blank]

theorem shown_textContent (settings : Settings) {parent : Element} {opened : List String}
    (innermost : opened.head? = some parent.head.tag) (isPreformatted : Bool) (raw : String) :
    shown (textContent settings parent isPreformatted raw) =
      shown (contentWithin opened raw) := by
  unfold textContent
  split
  · rw [contentWithin, innermost, Option.any_some]
  · next blank =>
    have blankRaw : allBlank raw = true := by simp_all
    rw [shown_contentWithin blankRaw]
    split
    · rfl
    · split <;> rfl

theorem addLeaf_passes {builder : Builder} (nonempty : builder.opened ≠ []) (node : Node) :
    Passes builder (builder.updateParent fun element => element.addChild node)
      (builder.openTags, node.visits) := by
  obtain ⟨parent, outer, given⟩ := List.exists_cons_of_ne_nil nonempty
  unfold updateParent
  rw [given]
  refine fun clean => ⟨clean, fun allOpen => ?_⟩
  refine Reached.ofParent allOpen given ?_ ?_ ?_ ?_ (visitsOfNodes_addChild parent node)
  all_goals rfl

theorem innerText_passes (preserves : settings.whitespace = .preserve) {builder : Builder}
    {parent : Element} (innermost : builder.opened.head? = some parent) (raw : String)
    (span : Span) (id : Nat) :
    Passes builder (builder.innerText settings parent raw span id)
      (builder.openTags, shown (contentWithin builder.openTags raw)) := by
  have named : builder.openTags.head? = some parent.head.tag := by
    rw [openTags, List.head?_map, innermost, Option.map_some]
  have uncondensed : (!builder.isPreformatted && settings.whitespace == .condense) = false := by
    rw [preserves, Bool.and_eq_false_iff]
    exact .inr rfl
  unfold innerText
  simp only [uncondensed, Bool.false_eq_true, if_false]
  rw [← shown_textContent settings named builder.isPreformatted raw]
  generalize textContent settings parent builder.isPreformatted raw = content
  split
  · next empty =>
    rw [beq_iff_eq.mp empty]
    exact .stay rfl rfl fun clean => clean
  · split
    · next space =>
      rw [beq_iff_eq.mp (Bool.and_eq_true_iff.mp space).1]
      exact .stay rfl rfl fun clean => (isClean_report.mp clean).1
    · have nonempty : builder.opened ≠ [] := by
        rintro none
        simp [none] at innermost
      refine .behind ?_ ?_ ?_ (addLeaf_passes ?_ _)
      · rfl
      · rfl
      · exact fun clean => (isClean_report.mp clean).1
      · exact nonempty

theorem text_passes (preserves : settings.whitespace = .preserve) (builder : Builder)
    (source raw : String) (span : Span) :
    Passes builder (builder.text settings source raw span)
      (builder.openTags, shown (contentWithin builder.openTags raw)) := by
  unfold Builder.text
  simp only
  split
  · unfold outerText
    split
    · exact .of_unclean (unclean_errorAt _ _ _) _
    · split
      · next blank =>
        rw [shown_contentWithin blank]
        exact .stay rfl rfl id
      · exact .of_unclean (unclean_errorAt _ _ _) _
  · next parent outer given =>
    refine .behind ?_ ?_ ?_ (innerText_passes preserves ?_ raw span builder.nextId)
    · rfl
    · rfl
    · exact id
    · exact congrArg List.head? given

theorem comment_passes (builder : Builder) (content : String) (span : Span) :
    Passes builder (builder.comment settings content span) (builder.openTags, []) := by
  unfold Builder.comment
  split
  · next kept =>
    have nonempty : builder.opened ≠ [] := by
      rintro none
      simp [none] at kept
    refine .behind ?_ ?_ ?_ (addLeaf_passes ?_ _)
    · rfl
    · rfl
    · exact id
    · exact nonempty
  · exact .stay rfl rfl id

include keeps

theorem token_passes (paragraph : settings.platform.isUnary "p" = false)
    (preserves : settings.whitespace = .preserve) (builder : Builder) (source : String)
    (token : Token) :
    Passes builder (builder.token settings source token)
      (passToken settings.platform builder.openTags token) := by
  cases token with
  | startTag name attributes selfClosing span =>
    exact startTag_passes keeps builder name attributes selfClosing span
  | endTag name span => exact endTag_passes keeps paragraph builder name span
  | text content span => exact text_passes preserves builder source content span
  | comment content span => exact comment_passes builder content span
  | malformed content span =>
    refine .of_unclean (fun clean => ?_) _
    exact unclean_errorAt _ _ _ (text_passes preserves _ source content span clean).1

/-- The walk through what has been read and the one through the tokens ahead. -/
theorem tokens_pass (paragraph : settings.platform.isUnary "p" = false)
    (preserves : settings.whitespace = .preserve) (source : String) (tokens : List Token)
    {builder : Builder}
    (clean : (tokens.foldl (Builder.token settings source) builder).IsClean) :
    builder.IsClean ∧ (builder.AllOpen →
      (tokens.foldl (Builder.token settings source) builder).visits ++
          (tokens.foldl (Builder.token settings source) builder).openTags.map (fun _ => .left) =
        builder.visits ++ passTokens settings.platform builder.openTags tokens) := by
  induction tokens generalizing builder with
  | nil => exact ⟨clean, fun _ => rfl⟩
  | cons token rest ih =>
    obtain ⟨cleanInside, further⟩ := ih clean
    obtain ⟨cleanBefore, passed⟩ := token_passes keeps paragraph preserves builder source token
      cleanInside
    refine ⟨cleanBefore, fun allOpen => ?_⟩
    have reached := passed allOpen
    rw [List.foldl_cons, further reached.allOpen, reached.visits, reached.openTags, passTokens,
      List.append_assoc]

end Settings

end Builder

/-- A template that is read without an error is walked as its tokens are. -/
theorem parse_passes {settings : Settings} (keeps : Builder.KeepsPlace settings)
    (paragraph : settings.platform.isUnary "p" = false)
    (preserves : settings.whitespace = .preserve) {source : String}
    (clean : errorsOf (Document.parse settings source).2 = []) :
    (Document.parse settings source).1.visits =
      passTokens settings.platform [] (scan source) := by
  unfold Document.parse Builder.finish at clean ⊢
  simp only at clean ⊢
  obtain ⟨same, closed⟩ := Builder.closeAllUnmatched_clean keeps clean
  have none : ((scan source).foldl (Builder.token settings source) .initial).opened = [] :=
    closed.elim List.eq_nil_of_length_eq_zero id
  rw [same] at clean ⊢
  have walked := (Builder.tokens_pass keeps paragraph preserves source _ clean).2
    (fun _ held => by cases held)
  rw [Builder.visits, Builder.openTags, none] at walked
  simpa [visitsOfOpen, Document.visits, Builder.visits, Builder.initial, Builder.openTags]
    using walked

theorem base_preserves {base : Settings} (known : IsBase base) {overlay : Overlay}
    (unextended : overlay.extensions = []) {α : Type} {field : Head → α}
    (kept : ∀ {head rest : Head}, head.Leaves rest → field rest = field head)
    (coded : ∀ (head : Head) (codes : Dictionary String),
      field { head with extensions := codes } = field head) :
    ∀ extension ∈ (base.overlaid overlay).extensions, extension.Preserves field := by
  have extensions : (base.overlaid overlay).extensions = base.extensions := by
    rw [Settings.overlaid, unextended, List.append_nil]
  intro extension held
  rw [extensions] at held
  rcases known with rfl | rfl
  · have listed : Web.settings.extensions = [Web.classExtension, Web.styleExtension] := rfl
    rw [listed, List.mem_cons, List.mem_singleton] at held
    rcases held with rfl | rfl
    · exact takeBoth_preserves kept coded _ _ _ _
    · exact takeBoth_preserves kept coded _ _ _ _
  · cases held

theorem base_keepsPlace {base : Settings} (known : IsBase base) {overlay : Overlay}
    (unextended : overlay.extensions = []) : Builder.KeepsPlace (base.overlaid overlay) :=
  ⟨base_preserves known unextended (fun leaves => leaves.tag) fun _ _ => rfl,
    base_preserves known unextended (fun leaves => leaves.isForbidden) fun _ _ => rfl⟩

/-- Where reading reports no error, each start tag has become one element, with
the empty line breaks and paragraphs of end tags that match nothing among them,
and each text that can be seen one text, all in the order of the source. -/
theorem parse_visits {base : Settings} (known : IsBase base) {overlay : Overlay}
    (unextended : overlay.extensions = [])
    (preserves : (base.overlaid overlay).whitespace = .preserve) (source : String)
    (clean : errorsOf (Document.parse (base.overlaid overlay) source).2 = []) :
    (Document.parse (base.overlaid overlay) source).1.visits =
      passTokens base.platform [] (scan source) := by
  refine parse_passes (base_keepsPlace known unextended) ?_ preserves clean
  rcases known with rfl | rfl
  · exact (by decide +kernel : Web.platform.isUnary "p" = false)
  · rfl

/-- Elements that end by themselves, a branch, and end tags that match nothing. -/
def unevenSource : String :=
  "<div><p>a &amp; b<p>c</p><ul><li v-if=\"d\">e<br></li> <li v-else>f</br></li></ul></p>" ++
    "<script type=\"g\">&lt;</script>&#32;</div>"

theorem unevenSource_visits :
    errorsOf (Document.parse (Web.settings.overlaid .empty) unevenSource).2 = [] ∧
      (Document.parse (Web.settings.overlaid .empty) unevenSource).1.visits =
        [.entered "div", .entered "p", .text "a & b", .left, .entered "p", .text "c", .left,
          .entered "ul", .entered "li", .text "e", .entered "br", .left, .left, .entered "li",
          .text "f", .entered "br", .left, .left, .left, .entered "p", .left, .entered "script",
          .text "&lt;", .left, .left] := by
  have clean : errorsOf (Document.parse (Web.settings.overlaid .empty) unevenSource).2 = [] := by
    decide +kernel
  exact ⟨clean, (parse_visits (.inl rfl) rfl rfl unevenSource clean).trans (by decide +kernel)⟩

end Templating.Template
