import Templating.Proofs.Template.Course
import Templating.Proofs.Template.Lineage
/-!
# Spans of a document

All that a document keeps, and all that is reported about it, is within the source that
it was read from.  An element that ends without an end tag ends with its start tag or
where reading has come to, so that what has been read is between two boundaries as well.
-/
set_option autoImplicit false

namespace Templating.Template

open Templating.Text Templating.Data Templating.Markup

/-! ## Trees -/

/-- The tag with its attributes and the texts and comments of the element are within the
source. -/
structure Element.IsLocated (source : String) (element : Element) : Prop where
  head : element.head.SpansIn element.head.span (Span.IsWithin source)
  texts : ∀ run, .text run ∈ element.children → run.span.IsWithin source
  comments : ∀ comment, .comment comment ∈ element.children → comment.span.IsWithin source

def Node.IsLocated (source : String) : Node → Prop
  | .element child => child.Throughout (Element.IsLocated source)
  | .text run => run.span.IsWithin source
  | .comment written => written.span.IsWithin source

section Trees

variable {source : String} {element parent branch : Element}

theorem located_iff : element.Throughout (Element.IsLocated source) ↔
    element.head.SpansIn element.head.span (Span.IsWithin source) ∧
      (∀ node ∈ element.children, node.IsLocated source) ∧
        ∀ branch ∈ element.branches, branch.block.Throughout (Element.IsLocated source) := by
  constructor
  · intro all
    obtain ⟨own, below⟩ := Element.throughout_iff.mp all
    refine ⟨own.head, fun node held => ?_, below.branches⟩
    cases node with
    | element child => exact below.children child held
    | text run => exact own.texts run held
    | comment comment => exact own.comments comment held
  · rintro ⟨head, children, branches⟩
    refine Element.throughout_iff.mpr ⟨⟨head, ?_, ?_⟩, ⟨?_, branches⟩⟩
    · exact fun run held => children _ held
    · exact fun comment held => children _ held
    · exact fun child held => children _ held

theorem located_addChild (located : parent.Throughout (Element.IsLocated source)) {node : Node}
    (child : node.IsLocated source) : (parent.addChild node).Throughout (Element.IsLocated source) := by
  obtain ⟨head, children, branches⟩ := located_iff.mp located
  refine located_iff.mpr ⟨head, ?_, branches⟩
  exact List.forall_mem_append.mpr ⟨children, List.forall_mem_singleton.mpr child⟩

theorem located_addBranch (located : element.Throughout (Element.IsLocated source))
    (beside : branch.Throughout (Element.IsLocated source)) :
    (element.addBranch branch).Throughout (Element.IsLocated source) := by
  obtain ⟨head, children, branches⟩ := located_iff.mp located
  obtain ⟨branchHead, branchChildren, branchBranches⟩ := located_iff.mp beside
  have joined : branch.asBranch.block.Throughout (Element.IsLocated source) :=
    located_iff.mpr ⟨{ branchHead with }, branchChildren, branchBranches⟩
  refine located_iff.mpr ⟨head, children, ?_⟩
  exact List.forall_mem_append.mpr ⟨branches, List.forall_mem_singleton.mpr joined⟩

theorem dropToElement_pointInto {nodes : List Node} (located : ∀ node ∈ nodes, node.IsLocated source) :
    PointInto source (dropToElement nodes).2 := by
  induction nodes with
  | nil => exact List.forall_mem_nil _
  | cons node earlier ih =>
    obtain ⟨first, others⟩ := List.forall_mem_cons.mp located
    cases node with
    | element child => exact List.forall_mem_nil _
    | comment comment => exact ih others
    | text run =>
      refine List.forall_mem_append.mpr ⟨?_, ih others⟩
      split
      · exact List.forall_mem_nil _
      · exact List.forall_mem_singleton.mpr (errorAt_pointsInto first _)

theorem attachBranch_located (located : parent.Throughout (Element.IsLocated source))
    (beside : branch.Throughout (Element.IsLocated source)) :
    (attachBranch parent branch).1.Throughout (Element.IsLocated source) ∧
      (attachBranch parent branch).1.head = parent.head ∧
        PointInto source (attachBranch parent branch).2 := by
  obtain ⟨head, children, branches⟩ := located_iff.mp located
  have backwards : ∀ node ∈ parent.children.reverse, node.IsLocated source :=
    fun node held => children node (List.mem_reverse.mp held)
  have reports := dropToElement_pointInto backwards
  have fewer : ∀ node ∈ (dropToElement parent.children.reverse).1, node.IsLocated source :=
    fun node held => backwards node (dropToElement_subset _ node held)
  have stray : (strayBranch branch.head).PointsInto (Span.IsWithin source) :=
    errorAt_pointsInto (located_iff.mp beside).1.fits _
  have kept {nodes : List Node} (all : ∀ node ∈ nodes, node.IsLocated source) :
      ({ parent with children := nodes.reverse } : Element).Throughout (Element.IsLocated source) :=
    located_iff.mpr ⟨head, fun node held => all node (List.mem_reverse.mp held), branches⟩
  unfold attachBranch
  simp only
  generalize (dropToElement parent.children.reverse).2 = diagnostics at reports ⊢
  generalize (dropToElement parent.children.reverse).1 = nodes at fewer ⊢
  have reported : PointInto source (diagnostics ++ [strayBranch branch.head]) :=
    List.forall_mem_append.mpr ⟨reports, List.forall_mem_singleton.mpr stray⟩
  split
  · next previous earlier =>
    obtain ⟨last, others⟩ := List.forall_mem_cons.mp fewer
    split
    · exact ⟨kept (List.forall_mem_cons.mpr ⟨located_addBranch last beside, others⟩), rfl, reports⟩
    · exact ⟨kept fewer, rfl, reported⟩
  · exact ⟨kept fewer, rfl, reported⟩

end Trees

/-! ## Reading -/

/-- Neither the extensions nor the handlers of directives point to anything else than
what they are given. -/
structure Settings.KeepsSpans (settings : Settings) : Prop where
  extensions : ∀ extension ∈ settings.extensions, ∀ place allowed, extension.StaysIn place allowed
  handlers : ∀ name, ∀ handler ∈ settings.directive? name, ∀ directive : Directive,
    ∀ diagnostic ∈ (handler directive).diagnostics, diagnostic.PointsInto (· = directive.span)

namespace Builder

/-- What has been read is within the source, and open elements start before the place to
which reading has come. -/
structure Located (source : String) (moment : Moment) : Prop where
  position : IsBoundary source moment.position
  opened : ∀ element ∈ moment.builder.opened, element.Throughout (Element.IsLocated source) ∧
    element.head.span.start ≤ moment.position
  root : ∀ root ∈ moment.builder.root, root.Throughout (Element.IsLocated source)
  reports : PointInto source moment.builder.diagnostics

section Moves

variable {source : String} {position : Nat} {builder : Builder} {element : Element}

theorem Located.report (located : Located source ⟨position, builder⟩) {diagnostics : List Diagnostic}
    (points : PointInto source diagnostics) : Located source ⟨position, builder.report diagnostics⟩ :=
  { located with reports := List.forall_mem_append.mpr ⟨located.reports, points⟩ }

theorem Located.forward (located : Located source ⟨position, builder⟩) {next : Nat}
    (later : position ≤ next) (boundary : IsBoundary source next) : Located source ⟨next, builder⟩ where
  position := boundary
  opened := by
    intro element held
    obtain ⟨inside, before⟩ := located.opened element held
    exact ⟨inside, Nat.le_trans before later⟩
  root := located.root
  reports := located.reports

theorem Located.place (located : Located source ⟨position, builder⟩)
    (inside : element.Throughout (Element.IsLocated source)) :
    Located source ⟨position, builder.place element⟩ := by
  have fits := (located_iff.mp inside).1.fits
  unfold Builder.place
  cases given : builder.opened with
  | cons parent outer =>
    have all := located.opened
    simp only [given] at all
    obtain ⟨⟨parentInside, before⟩, others⟩ := List.forall_mem_cons.mp all
    have changed {joined : Element} (joinedInside : joined.Throughout (Element.IsLocated source))
        (same : joined.head = parent.head) :
        Located source ⟨position, { builder with opened := joined :: outer }⟩ :=
      { located with
        opened := List.forall_mem_cons.mpr ⟨⟨joinedInside, by rw [same]; exact before⟩, others⟩ }
    simp only
    split
    · exact located
    · split
      · obtain ⟨joinedInside, same, points⟩ := attachBranch_located parentInside inside
        exact (changed joinedInside same).report points
      · exact changed (located_addChild parentInside inside) rfl
  | nil =>
    have rooted {root : Element} (rootInside : root.Throughout (Element.IsLocated source)) :
        Located source ⟨position, { builder with opened := [], root := some root }⟩ := by
      refine { located with opened := List.forall_mem_nil _, root := ?_ }
      rintro _ ⟨⟩
      exact rootInside
    simp only
    split
    · exact rooted inside
    · next root held =>
      split
      · exact (rooted (located_addBranch (located.root root held) inside)).report
          (rootDiagnostics_pointInto fits)
      · exact located.report (List.forall_mem_singleton.mpr (errorAt_pointsInto fits _))

variable {settings : Settings} (keeps : settings.KeepsSpans)

include keeps

theorem Located.close (located : Located source ⟨position, builder⟩)
    (inside : element.Throughout (Element.IsLocated source)) :
    Located source ⟨position, builder.close settings element⟩ := by
  obtain ⟨head, children, branches⟩ := located_iff.mp inside
  have settled : Head.ResultIn element.head.span (Span.IsWithin source)
      (if builder.isVerbatim then (element.head, []) else element.head.complete settings) := by
    split
    · exact head.quiet
    · exact complete_spansIn (fun extension held => keeps.extensions extension held _ _) head
  have subset := closedChildren_subset builder.isPreformatted element.children
  unfold Builder.close
  simp only
  generalize (if builder.isVerbatim then (element.head, []) else element.head.complete settings) =
    final at settled ⊢
  generalize (if builder.isPreformatted then element.children
    else withoutTrailingSpaces element.children) = kept at subset ⊢
  have closed : ({ element with head := final.1, children := kept } : Element).Throughout
      (Element.IsLocated source) := by
    refine located_iff.mpr ⟨?_, fun node held => children node (subset node held), branches⟩
    exact settled.head.own ▸ settled.head
  have placed := (located.report settled.reports).place closed
  exact { placed with }

omit keeps in
theorem Located.quiet {first second : Moment} (located : Located source first)
    (move : Quiet source first second) : Located source second := by
  cases move with
  | pass builder later boundary => exact located.forward later (boundary located.position)
  | report position builder points =>
    exact located.report (points fun element held => (located_iff.mp (located.opened element held).1).1.fits)
  | spend position builder => exact { located with }
  | @text builder parent outer given position content segments span ahead plain =>
    have all := located.opened
    simp only [given] at all
    obtain ⟨⟨inside, before⟩, others⟩ := List.forall_mem_cons.mp all
    have added : Located source ⟨position, { builder with
        nextId := builder.nextId + 1
        opened := parent.addChild (.text ⟨builder.nextId, content, segments, span⟩) :: outer }⟩ :=
      { located with
        opened := List.forall_mem_cons.mpr
          ⟨⟨located_addChild inside ahead.within, before⟩, others⟩ }
    exact added.forward (Nat.le_trans ahead.behind (Nat.le_of_lt ahead.nonempty)) ahead.within.stop
  | @comment builder parent outer given position content span ahead =>
    have all := located.opened
    simp only [given] at all
    obtain ⟨⟨inside, before⟩, others⟩ := List.forall_mem_cons.mp all
    have added : Located source ⟨position, { builder with
        nextId := builder.nextId + 1
        opened := parent.addChild (.comment ⟨builder.nextId, content, span⟩) :: outer }⟩ :=
      { located with
        opened := List.forall_mem_cons.mpr
          ⟨⟨located_addChild inside ahead.within, before⟩, others⟩ }
    exact added.forward (Nat.le_trans ahead.behind (Nat.le_of_lt ahead.nonempty)) ahead.within.stop

theorem Located.turn {first second : Moment} (located : Located source first)
    (move : Turn settings source first second) : Located source second := by
  cases move with
  | @enter builder position tag named attributes span ahead items forbidden reported =>
    have fresh := freshHead_spansIn ahead.within (distinctAttributes_spansIn tag [] items).1
      settings tag builder
    have entered := (enter_spansIn builder fresh).1
    have later : position ≤ span.stop := Nat.le_trans ahead.behind (Nat.le_of_lt ahead.nonempty)
    have outside := located.forward later ahead.within.stop
    refine { outside with
      opened := List.forall_mem_cons.mpr ⟨⟨located_iff.mpr ⟨?_, ?_, ?_⟩, ?_⟩, outside.opened⟩ }
    · exact entered.own.symm ▸ entered
    · exact List.forall_mem_nil _
    · exact List.forall_mem_nil _
    · simp only [entered.own]
      exact ahead.within.ordered
  | @lineBreak builder position span ahead =>
    have later : position ≤ span.stop := Nat.le_trans ahead.behind (Nat.le_of_lt ahead.nonempty)
    have outside := located.forward later ahead.within.stop
    have counted : Located source ⟨span.stop, { builder with nextId := builder.nextId + 1 }⟩ :=
      { outside with }
    refine counted.close keeps (located_iff.mpr ⟨?_, ?_, ?_⟩)
    · exact Head.new_spansIn ahead.within (List.forall_mem_nil _) _ _
    · exact List.forall_mem_nil _
    · exact List.forall_mem_nil _
  | @close builder element outer given position stop stops =>
    have all := located.opened
    simp only [given] at all
    obtain ⟨⟨inside, before⟩, others⟩ := List.forall_mem_cons.mp all
    obtain ⟨head, children, branches⟩ := located_iff.mp inside
    have outside : Located source ⟨position, { builder with opened := outer }⟩ :=
      { located with opened := others }
    have whole : Span.IsWithin source ⟨element.head.span.start, stop⟩ := by
      rcases stops with rfl | rfl
      · exact head.fits
      · exact ⟨before, head.fits.start, located.position⟩
    refine outside.close keeps (located_iff.mpr ⟨?_, children, branches⟩)
    exact { head with own := rfl, fits := whole }

end Moves

end Builder

section Documents

variable {settings : Settings} (keeps : settings.KeepsSpans) (source : String)

include keeps

/-- A document and the reports of reading it are within the source. -/
theorem parse_located :
    (∀ root ∈ (Document.parse settings source).1.root, root.Throughout (Element.IsLocated source)) ∧
      PointInto source (Document.parse settings source).2 := by
  obtain ⟨position, final, course, -, same⟩ := parse_course settings source
  have start : Builder.Located source ⟨0, .initial⟩ :=
    { position := isBoundary_iff.mpr ⟨[], source.toList, rfl, rfl⟩
      opened := List.forall_mem_nil _
      root := fun _ held => nomatch held
      reports := List.forall_mem_nil _ }
  have located := course.keep (Builder.Located source) (fun _ _ move before => before.quiet move)
    (fun _ _ move before => before.turn keeps move) start
  rw [same]
  exact ⟨located.root, located.reports⟩

end Documents

end Templating.Template
