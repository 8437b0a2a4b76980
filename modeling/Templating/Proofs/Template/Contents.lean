import Templating.Proofs.Template.Joining
import Templating.Proofs.Template.Lossless
/-!
# What elements hold

A rule on contents says by the tag of an element which kinds of children it may hold,
and which tags may open directly inside it.  Where the tags of the open elements fit
into each other, closing puts each element where it fits too, whatever is left out or
folded into a branch, so that the rule holds throughout what has been read.
-/
set_option autoImplicit false

namespace Templating.Template

open Templating.Text Templating.Data Templating.Markup

inductive Kind where
  | element (tag : String)
  | text
  | comment
deriving DecidableEq, Repr

def Node.kind : Node → Kind
  | .element child => .element child.head.tag
  | .text _ => .text
  | .comment _ => .comment

def Element.kinds (element : Element) : List Kind := element.children.map Node.kind

/-- What an element may hold, and which tags may open inside it. -/
structure ContentRule where
  allows : String → List Kind → Prop
  fits : (outer inner : String) → Prop
  empty : ∀ tag, allows tag []
  /-- Children at the end can be left out. -/
  shorter : ∀ {tag : String} {fewer kinds : List Kind}, fewer <+: kinds → allows tag kinds →
    allows tag fewer
  concat : ∀ {outer inner : String} {kinds : List Kind}, allows outer kinds → fits outer inner →
    allows outer (kinds ++ [.element inner])

def Element.Obeys (rule : ContentRule) (element : Element) : Prop :=
  rule.allows element.head.tag element.kinds

section Elements

variable {rule : ContentRule} {parent element branch : Element}

theorem Element.Obeys.fresh (rule : ContentRule) (head : Head) :
    Element.Throughout (Element.Obeys rule) ⟨head, [], []⟩ :=
  .fresh (rule.empty head.tag)

theorem Element.Throughout.shorten (all : element.Throughout (Element.Obeys rule)) {head : Head}
    (tag : head.tag = element.head.tag) {children : List Node} (front : children <+: element.children) :
    Element.Throughout (Element.Obeys rule) { element with head, children } := by
  have own := (Element.throughout_iff.mp all).1
  refine all.withParts ?_ fun node held => front.subset held
  unfold Element.Obeys
  rw [tag]
  exact rule.shorter (front.map Node.kind) own

theorem Element.Obeys.joins (own : branch.Obeys rule) : Element.Joins (Element.Obeys rule) branch where
  fewer front all := rule.shorter (front.map Node.kind) all
  changed := by
    intro element previous changed front same all
    unfold Element.Obeys Element.kinds at all ⊢
    rw [List.map_append] at all ⊢
    simpa only [List.map_cons, List.map_nil, Node.kind, same] using all
  joined all := all
  block := own

theorem obeys_addChild {parent : Element} {node : Node}
    (allowed : rule.allows parent.head.tag (parent.kinds ++ [node.kind])) :
    (parent.addChild node).Obeys rule := by
  unfold Element.Obeys Element.kinds Element.addChild
  rw [List.map_append]
  exact allowed

end Elements

namespace Builder

/-- The tags of the open elements fit into each other, and all that has been read obeys
the rule. -/
structure Obeys (rule : ContentRule) (builder : Builder) : Prop where
  nested : builder.openTags.IsChain fun inner outer => rule.fits outer inner
  opened : ∀ element ∈ builder.opened, element.Throughout (Element.Obeys rule)
  root : ∀ root ∈ builder.root, root.Throughout (Element.Obeys rule)

section Obeys

variable {rule : ContentRule} {settings : Settings} {builder : Builder} {element : Element}

theorem Obeys.initial (rule : ContentRule) : Builder.initial.Obeys rule where
  nested := .nil
  opened := by
    intro element held
    cases held
  root := by
    intro root held
    cases held

theorem openTags_of_heads {before after : Builder}
    (heads : after.opened.map Element.head = before.opened.map Element.head) :
    after.openTags = before.openTags := by
  have tags := congrArg (List.map Head.tag) heads
  rw [List.map_map, List.map_map] at tags
  exact tags

theorem Obeys.place (obeys : builder.Obeys rule) (inside : element.Throughout (Element.Obeys rule))
    (fits : ∀ parent ∈ builder.openTags.head?, rule.fits parent element.head.tag) :
    (builder.place element).Obeys rule := by
  have joins : Element.Joins (Element.Obeys rule) element := (Element.throughout_iff.mp inside).1.joins
  have nested : (builder.place element).openTags.IsChain fun inner outer => rule.fits outer inner := by
    rw [openTags_of_heads (place_grows builder element).heads]
    exact obeys.nested
  have placed := place_throughout joins inside obeys.opened obeys.root fun parent held own => by
    apply obeys_addChild
    apply rule.concat own
    apply fits
    rw [openTags, List.head?_map]
    exact Option.mem_map_of_mem _ held
  exact ⟨nested, placed.1, placed.2⟩

theorem Obeys.close (tags : ∀ extension ∈ settings.extensions, extension.Preserves Head.tag)
    (obeys : builder.Obeys rule) (inside : element.Throughout (Element.Obeys rule))
    (fits : ∀ parent ∈ builder.openTags.head?, rule.fits parent element.head.tag) :
    (builder.close settings element).Obeys rule := by
  unfold Builder.close
  simp only
  generalize settled : (if builder.isVerbatim then (element.head, [])
    else element.head.complete settings) = final
  have tag : final.1.tag = element.head.tag := by
    rw [← settled]
    split
    · rfl
    · exact complete_preserves (fun leaves => leaves.tag) tags element.head
  have front : (if builder.isPreformatted then element.children
      else withoutTrailingSpaces element.children) <+: element.children := by
    split
    · exact List.prefix_refl _
    · exact withoutTrailingSpaces_prefix _
  generalize (if builder.isPreformatted then element.children
    else withoutTrailingSpaces element.children) = children at front ⊢
  have reported : (builder.report final.2).Obeys rule := ⟨obeys.nested, obeys.opened, obeys.root⟩
  have placed := reported.place (inside.shorten tag front) fun parent held => tag ▸ fits parent held
  exact ⟨placed.nested, placed.opened, placed.root⟩

theorem Obeys.pop (tags : ∀ extension ∈ settings.extensions, extension.Preserves Head.tag)
    (obeys : builder.Obeys rule) {outer : List Element} (given : builder.opened = element :: outer)
    (span : Span) :
    (({ builder with opened := outer } : Builder).close settings
      { element with head := { element.head with span } }).Obeys rule := by
  obtain ⟨nested, opened, root⟩ := obeys
  rw [openTags, given, List.map_cons] at nested
  rw [given] at opened
  obtain ⟨first, others⟩ := List.forall_mem_cons.mp opened
  obtain ⟨fits, outerNested⟩ := List.isChain_cons.mp nested
  have popped : Obeys rule { builder with opened := outer } := ⟨outerNested, others, root⟩
  have sameTag : ({ element.head with span } : Head).tag = element.head.tag := rfl
  have spanned : Element.Throughout (Element.Obeys rule)
      { element with head := { element.head with span } } :=
    first.shorten sameTag (List.prefix_refl _)
  exact popped.close tags spanned fits

theorem Obeys.closeUnmatched
    (tags : ∀ extension ∈ settings.extensions, extension.Preserves Head.tag)
    (obeys : builder.Obeys rule) : (builder.closeUnmatched settings).Obeys rule := by
  unfold Builder.closeUnmatched
  split
  · exact obeys
  · next element outer given =>
    have reported : (builder.report
        [.errorAt element.head.span (.unclosedTag element.head.tag)]).Obeys rule :=
      ⟨obeys.nested, obeys.opened, obeys.root⟩
    exact reported.pop tags given element.head.span

theorem Obeys.closings (tags : ∀ extension ∈ settings.extensions, extension.Preserves Head.tag)
    (count : Nat) (obeys : builder.Obeys rule) :
    (∀ state ∈ closings settings count builder, state.Obeys rule) ∧
      (builder.closeAllUnmatched settings count).Obeys rule := by
  induction count generalizing builder with
  | zero =>
    refine ⟨?_, obeys⟩
    intro state held
    cases held
  | succ count ih =>
    have first := obeys.closeUnmatched tags
    obtain ⟨states, last⟩ := ih first
    exact ⟨List.forall_mem_cons.mpr ⟨first, states⟩, last⟩

theorem Obeys.closeThrough (tags : ∀ extension ∈ settings.extensions, extension.Preserves Head.tag)
    (obeys : builder.Obeys rule) (tag : String) (span : Span) :
    (∀ state ∈ builder.closingsThrough settings tag span, state.Obeys rule) ∧
      (builder.closeThrough settings tag span).Obeys rule := by
  have last : (builder.closeThrough settings tag span).Obeys rule := by
    unfold Builder.closeThrough
    split
    · exact obeys
    · next depth found =>
      have inner := (obeys.closings tags depth).2
      unfold closeMatched
      split
      · exact inner
      · next given => exact inner.pop tags given _
  refine ⟨?_, last⟩
  unfold closingsThrough
  split
  · intro state held
    cases held
  · next depth found =>
    intro state held
    rcases List.mem_append.mp held with held | held
    · exact (obeys.closings tags depth).1 state held
    · cases List.mem_singleton.mp held
      exact last

theorem closeThrough_openTags {inner tag : String} {outer : List String}
    (given : builder.openTags = inner :: outer) (same : sameIgnoringAsciiCase inner tag = true)
    (span : Span) : (builder.closeThrough settings tag span).openTags = outer := by
  cases opened : builder.opened with
  | nil =>
    rw [openTags, opened] at given
    cases given
  | cons element others =>
    rw [openTags, opened, List.map_cons] at given
    obtain ⟨rfl, rfl⟩ := List.cons.inj given
    have depth : builder.depthOf? tag = some 0 := by
      rw [depthOf?, opened, List.findIdx?_cons, same, if_pos rfl]
    unfold closeThrough
    simp only [depth, closeAllUnmatched, closeMatched, opened]
    exact openTags_of_heads (close_grows { builder with opened := others } _).heads

theorem Obeys.opening (obeys : builder.Obeys rule) {tag : String}
    (fits : ∀ parent ∈ builder.openTags.head?, rule.fits parent tag) {fresh : Head}
    (named : fresh.tag = tag) : (builder.opening settings tag fresh).Obeys rule := by
  have kept := enter_keeps builder fresh
  refine ⟨?_, ?_, obeys.root⟩
  · refine List.isChain_cons.mpr ⟨?_, obeys.nested⟩
    intro parent held
    have tag : (builder.enter fresh).1.tag = tag := kept.tag.trans named
    simp only [tag]
    exact fits parent held
  · exact List.forall_mem_cons.mpr ⟨Element.Obeys.fresh rule _, obeys.opened⟩

theorem Obeys.addLeaf (obeys : builder.Obeys rule) {parent : Element} {outer : List Element}
    (given : builder.opened = parent :: outer) {node : Node} (leaf : ∀ child, node ≠ .element child)
    (allowed : rule.allows parent.head.tag (parent.kinds ++ [node.kind])) {after : Builder}
    (opened : after.opened = parent.addChild node :: outer) (root : after.root = builder.root) :
    after.Obeys rule := by
  obtain ⟨nested, openObeys, rootObeys⟩ := obeys
  rw [given] at openObeys
  obtain ⟨first, others⟩ := List.forall_mem_cons.mp openObeys
  refine ⟨?_, ?_, root ▸ rootObeys⟩
  · rw [openTags, given] at nested
    rw [openTags, opened]
    exact nested
  · rw [opened]
    refine List.forall_mem_cons.mpr ⟨?_, others⟩
    exact first.addChild (obeys_addChild allowed) fun child same => absurd same (leaf child)

theorem Obeys.text (obeys : builder.Obeys rule)
    (allowed : ∀ parent ∈ builder.opened.head?,
      rule.allows parent.head.tag (parent.kinds ++ [.text]))
    (source raw : String) (span : Span) : (builder.text settings source raw span).Obeys rule := by
  have reads := text_reads settings source raw span builder
  generalize builder.text settings source raw span = after at reads ⊢
  cases reads with
  | leftOut diagnostics leaves => exact ⟨obeys.nested, obeys.opened, obeys.root⟩
  | @added diagnostics parent outer given stays =>
    have room := allowed _ (by rw [given]; rfl)
    have leaf (child : Element) : Node.text (addedText settings raw span builder parent) ≠ .element child :=
      fun same => Node.noConfusion same
    exact obeys.addLeaf given leaf room rfl rfl

theorem Obeys.comment (obeys : builder.Obeys rule)
    (allowed : ∀ parent ∈ builder.opened.head?,
      rule.allows parent.head.tag (parent.kinds ++ [.comment]))
    (content : String) (span : Span) : (builder.comment settings content span).Obeys rule := by
  unfold Builder.comment
  split
  · unfold updateParent
    split
    · exact ⟨obeys.nested, obeys.opened, obeys.root⟩
    · next parent outer given =>
      have innermost : builder.opened = parent :: outer := given
      have room := allowed parent (by rw [innermost]; rfl)
      have leaf (child : Element) : Node.comment ⟨builder.nextId, content, span⟩ ≠ .element child :=
        fun same => Node.noConfusion same
      exact obeys.addLeaf innermost leaf room rfl rfl
  · exact obeys

/-! ## Tags -/

theorem closeBefore_eq (settings : Settings) (tag : String) (span : Span) (builder : Builder) :
    builder.closeBefore settings tag span =
      if settings.platform.mayStayOpen tag &&
          (builder.outsideParagraph settings tag span).openTags.head?.any (· == tag) then
        (builder.outsideParagraph settings tag span).closeThrough settings tag
          ⟨span.start, span.start⟩
      else builder.outsideParagraph settings tag span := by
  rw [← head_openTags]
  rfl

theorem Obeys.closeBefore (tags : ∀ extension ∈ settings.extensions, extension.Preserves Head.tag)
    (obeys : builder.Obeys rule) (tag : String) (span : Span) :
    (∀ state ∈ builder.closingsBefore settings tag span, state.Obeys rule) ∧
      (builder.outsideParagraph settings tag span).Obeys rule ∧
      (builder.closeBefore settings tag span).Obeys rule := by
  have paragraph := obeys.closeThrough tags "p" ⟨span.start, span.start⟩
  have outside : (builder.outsideParagraph settings tag span).Obeys rule := by
    unfold outsideParagraph
    split
    · exact paragraph.2
    · exact obeys
  have sibling := outside.closeThrough tags tag ⟨span.start, span.start⟩
  refine ⟨?_, outside, ?_⟩
  · intro state held
    unfold closingsBefore at held
    rcases List.mem_append.mp held with held | held
    · split at held
      · exact paragraph.1 state held
      · cases held
    · split at held
      · exact sibling.1 state held
      · cases held
  · rw [closeBefore_eq]
    split
    · exact sibling.2
    · exact outside

theorem Obeys.startTag (tags : ∀ extension ∈ settings.extensions, extension.Preserves Head.tag)
    (obeys : builder.Obeys rule) {tag : String} {span : Span}
    (fits : ∀ parent ∈ (builder.closeBefore settings tag span).openTags.head?, rule.fits parent tag)
    (attributes : List SourceAttribute) (selfClosing : Bool) :
    (∀ state ∈ builder.startStates settings tag attributes selfClosing span, state.Obeys rule) ∧
      (builder.startTag settings tag attributes selfClosing span).Obeys rule := by
  obtain ⟨closings, -, before⟩ := obeys.closeBefore tags tag span
  have inside : (builder.behindStart settings tag attributes span).Obeys rule := by
    have reported : ((builder.closeBefore settings tag span).report
        ((builder.closeBefore settings tag span).startDiagnostics settings tag attributes span)).Obeys
          rule := ⟨before.nested, before.opened, before.root⟩
    exact reported.opening fits rfl
  have behind : (builder.startTag settings tag attributes selfClosing span).Obeys rule := by
    unfold Builder.startTag
    simp only
    split
    · exact inside.pop tags rfl _
    · exact inside
  refine ⟨?_, behind⟩
  intro state held
  unfold startStates at held
  rcases List.mem_append.mp held with held | held
  · exact closings state held
  · rcases List.mem_cons.mp held with rfl | held
    · exact inside
    · split at held
      · cases List.mem_singleton.mp held
        exact behind
      · cases held

theorem Obeys.endTag (tags : ∀ extension ∈ settings.extensions, extension.Preserves Head.tag)
    (obeys : builder.Obeys rule) {span : Span}
    (lineBreak : ∀ parent ∈ builder.openTags.head?, rule.fits parent "br")
    (paragraph : ∀ parent ∈ (builder.closeBefore settings "p" span).openTags.head?,
      rule.fits parent "p") (tag : String) :
    (∀ state ∈ builder.endStates settings tag span, state.Obeys rule) ∧
      (builder.endTag settings tag span).Obeys rule := by
  unfold endStates Builder.endTag
  split
  · exact obeys.closeThrough tags tag span
  · split
    · have counted : Obeys rule { builder with nextId := builder.nextId + 1 } :=
        ⟨obeys.nested, obeys.opened, obeys.root⟩
      have closed := counted.close tags
        (Element.Obeys.fresh rule (Head.new builder.nextId "br" [] span)) lineBreak
      refine ⟨?_, closed⟩
      intro state held
      cases List.mem_singleton.mp held
      exact closed
    · split
      · obtain ⟨opening, opened⟩ := obeys.startTag tags paragraph [] false
        obtain ⟨closing, closed⟩ := opened.closeThrough tags "p" span
        refine ⟨?_, closed⟩
        intro state held
        rcases List.mem_append.mp held with held | held
        · exact opening state held
        · exact closing state held
      · refine ⟨?_, ⟨obeys.nested, obeys.opened, obeys.root⟩⟩
        intro state held
        cases held

end Obeys

end Builder

end Templating.Template
