import Templating.Proofs.Template.Contents
import Templating.Proofs.Template.Preformatted
/-!
# Elements that close by themselves

A paragraph holds phrases only, and an element that may stay open holds none of its own
tag.  A start tag looks at the innermost element twice, once for each of the two rules,
and does not look again at what it uncovers.  That is enough: where the rules hold between
neighbours on the stack, what stands outside a paragraph is none, and what stands outside a
sibling has room for another one.
-/
set_option autoImplicit false

namespace Templating.Template

open Templating.Text Templating.Data Templating.Markup

/-- `inner` may stand directly inside `outer`. -/
structure Platform.Admits (platform : Platform) (outer inner : String) : Prop where
  phrase : outer = "p" → platform.isNonPhrasing inner = false
  sibling : platform.mayStayOpen inner = true → outer ≠ inner

def Element.Contains (platform : Platform) (element : Element) : Prop :=
  ∀ child, .element child ∈ element.children →
    platform.Admits element.head.tag child.head.tag

def Builder.IsContained (platform : Platform) (builder : Builder) : Prop :=
  builder.openTags.IsChain fun inner outer => platform.Admits outer inner

def containment (platform : Platform) : ContentRule where
  allows outer kinds := ∀ inner, .element inner ∈ kinds → platform.Admits outer inner
  fits := platform.Admits
  empty := by
    intro tag inner held
    cases held
  shorter := by
    intro tag fewer kinds front all inner held
    exact all inner (front.subset held)
  concat := by
    intro outer inner kinds all admits other held
    rcases List.mem_append.mp held with held | held
    · exact all other held
    · cases List.mem_singleton.mp held
      exact admits

theorem Element.Obeys.contains {platform : Platform} {element : Element}
    (obeys : element.Obeys (containment platform)) : element.Contains platform := by
  intro child held
  apply obeys
  exact List.mem_map_of_mem (f := Node.kind) held

namespace Builder

section Start

variable {settings : Settings} {builder : Builder}

theorem outsideParagraph_phrase (staysOpen : settings.platform.mayStayOpen "p" = true)
    (contained : builder.IsContained settings.platform) (tag : String) (span : Span) :
    (builder.outsideParagraph settings tag span).openTags.head? = some "p" →
      settings.platform.isNonPhrasing tag = false := by
  intro paragraph
  unfold outsideParagraph at paragraph
  rw [head_openTags] at paragraph
  split at paragraph
  · next ends =>
    exfalso
    cases given : builder.openTags with
    | nil => simp [given] at ends
    | cons inner outer =>
      obtain rfl : inner = "p" := by simpa [given] using (Bool.and_eq_true_iff.mp ends).1
      rw [closeThrough_openTags given (by simp [sameIgnoringAsciiCase])] at paragraph
      unfold IsContained at contained
      rw [given] at contained
      exact ((List.isChain_cons.mp contained).1 "p" paragraph).sibling staysOpen rfl
  · next ends =>
    by_contra block
    exact ends (by simp [paragraph, block])

/-- Behind both rules the element may open inside the innermost one. -/
theorem closeBefore_admits (tags : ∀ extension ∈ settings.extensions, extension.Preserves Head.tag)
    (staysOpen : settings.platform.mayStayOpen "p" = true)
    (obeys : builder.Obeys (containment settings.platform)) (tag : String) (span : Span) :
    ∀ parent ∈ (builder.closeBefore settings tag span).openTags.head?,
      settings.platform.Admits parent tag := by
  have phrase := outsideParagraph_phrase staysOpen obeys.nested tag span
  obtain ⟨-, outside, -⟩ := obeys.closeBefore tags tag span
  rw [closeBefore_eq]
  generalize builder.outsideParagraph settings tag span = before at phrase outside ⊢
  intro parent innermost
  split at innermost
  · next ends =>
    cases given : before.openTags with
    | nil => simp [given] at ends
    | cons inner outer =>
      obtain rfl : inner = tag := by simpa [given] using (Bool.and_eq_true_iff.mp ends).2
      rw [closeThrough_openTags given (by simp [sameIgnoringAsciiCase])] at innermost
      have nested := outside.nested
      rw [given] at nested
      exact (List.isChain_cons.mp nested).1 parent innermost
  · next ends =>
    constructor
    · rintro rfl
      exact phrase innermost
    · rintro stays rfl
      exact ends (by simp [stays, Option.mem_def.mp innermost])

end Start

/-! ## Reading -/

/-- What the rules on contents ask of a platform and its extensions. -/
structure ClosesAlone (settings : Settings) : Prop where
  tags : ∀ extension ∈ settings.extensions, extension.Preserves Head.tag
  paragraph : settings.platform.mayStayOpen "p" = true
  /-- A line break can stand everywhere. -/
  lineBreak : settings.platform.isNonPhrasing "br" = false ∧
    settings.platform.mayStayOpen "br" = false

section Reading

variable {settings : Settings} (closes : ClosesAlone settings) {builder : Builder}

include closes

theorem Obeys.token (obeys : builder.Obeys (containment settings.platform)) (source : String)
    (token : Token) :
    (∀ state ∈ builder.tokenStates settings token, state.Obeys (containment settings.platform)) ∧
      (builder.token settings source token).Obeys (containment settings.platform) := by
  have leaf {parent : Element} {kind : Kind} (plain : ∀ tag, kind ≠ .element tag)
      (held : parent ∈ builder.opened) :
      (containment settings.platform).allows parent.head.tag (parent.kinds ++ [kind]) := by
    have own := (Element.throughout_iff.mp (obeys.opened parent held)).1
    intro inner held
    rcases List.mem_append.mp held with held | held
    · exact own inner held
    · exact absurd (List.mem_singleton.mp held).symm (plain inner)
  have none {last : Builder} (obeysLast : last.Obeys (containment settings.platform)) :
      (∀ state ∈ ([] : List Builder), state.Obeys (containment settings.platform)) ∧
        last.Obeys (containment settings.platform) :=
    ⟨List.forall_mem_nil _, obeysLast⟩
  cases token with
  | startTag name attributes selfClosing span =>
    have fits := closeBefore_admits closes.tags closes.paragraph obeys name span
    exact obeys.startTag closes.tags fits attributes selfClosing
  | endTag name span =>
    have fits := closeBefore_admits closes.tags closes.paragraph obeys "p" span
    refine obeys.endTag closes.tags (fun parent _ => ⟨fun _ => closes.lineBreak.1, fun stays => ?_⟩)
      fits name
    rw [closes.lineBreak.2] at stays
    cases stays
  | text content span =>
    apply none
    apply obeys.text
    intro parent held
    exact leaf (fun _ same => Kind.noConfusion same) (List.mem_of_mem_head? held)
  | comment content span =>
    apply none
    apply obeys.comment
    intro parent held
    exact leaf (fun _ same => Kind.noConfusion same) (List.mem_of_mem_head? held)
  | malformed content span =>
    apply none
    have reported : (builder.report [.errorAt span (.malformedTag content)]).Obeys
        (containment settings.platform) := ⟨obeys.nested, obeys.opened, obeys.root⟩
    apply reported.text
    intro parent held
    exact leaf (fun _ same => Kind.noConfusion same) (List.mem_of_mem_head? held)

theorem Obeys.tokens (source : String) (tokens : List Token)
    (obeys : builder.Obeys (containment settings.platform)) :
    (∀ state ∈ tokensStates settings source tokens builder,
        state.Obeys (containment settings.platform)) ∧
      (tokens.foldl (Builder.token settings source) builder).Obeys
        (containment settings.platform) := by
  induction tokens generalizing builder with
  | nil => exact ⟨List.forall_mem_nil _, obeys⟩
  | cons token rest ih =>
    obtain ⟨states, behind⟩ := obeys.token closes source token
    obtain ⟨others, last⟩ := ih behind
    exact ⟨List.forall_mem_append.mpr ⟨states, others⟩, last⟩

end Reading

end Builder

theorem web_closesAlone {overlay : Overlay}
    (tags : ∀ extension ∈ overlay.extensions, extension.Preserves Head.tag) :
    Builder.ClosesAlone (Web.settings.overlaid overlay) where
  tags := by
    intro extension held
    rcases List.mem_append.mp held with own | added
    · have plain : Overlay.empty.extensions = [] := rfl
      exact base_preserves (.inl rfl) plain (fun leaves => leaves.tag) (fun _ _ => rfl) extension
        (List.mem_append_left _ own)
    · exact tags extension added
  paragraph := show Web.platform.mayStayOpen "p" = true by decide
  lineBreak := show Web.platform.isNonPhrasing "br" = false ∧
    Web.platform.mayStayOpen "br" = false by decide

/-- On the web, however wrong the template is, no paragraph holds a block, and no element
that may stay open holds one of its own tag: neither among the open elements behind any
opening or closing or any token, nor in the tree that has been read. -/
theorem parse_contained {overlay : Overlay}
    (tags : ∀ extension ∈ overlay.extensions, extension.Preserves Head.tag) (source : String) :
    let settings := Web.settings.overlaid overlay
    (∀ state ∈ Builder.history settings source, state.IsContained Web.platform) ∧
      (∀ tokens, tokens <+: scan source →
        (Builder.behind settings source tokens).IsContained Web.platform) ∧
      ∀ root ∈ (Document.parse settings source).1.root,
        root.Throughout (Element.Contains Web.platform) := by
  intro settings
  have closes : Builder.ClosesAlone settings := web_closesAlone tags
  have start := Builder.Obeys.initial (containment Web.platform)
  obtain ⟨states, read⟩ := Builder.Obeys.tokens closes source (scan source) start
  obtain ⟨closings, last⟩ := read.closings closes.tags
    ((scan source).foldl (Builder.token settings source) .initial).opened.length
  refine ⟨?_, ?_, ?_⟩
  · intro state held
    unfold Builder.history at held
    rcases List.mem_append.mp held with held | held
    · exact (states state held).nested
    · exact (closings state held).nested
  · intro tokens _
    exact (Builder.Obeys.tokens closes source tokens start).2.nested
  · intro root held above element lineage
    exact (last.root root held above element lineage).contains

/-- Styles are looked for a second time. -/
def restyling : Overlay := { Overlay.empty with extensions := [Web.styleExtension] }

/-- Paragraphs, items and cells that nobody closes, and a paragraph that nobody opens. -/
def looseSource : String :=
  "<div><p>a<div>b</p></div><dl><dt>c<dt>d<p>e<p>f<hr></dl><tr><td><p>g<td>h</tr></div>"

theorem looseSource_contained :
    let settings := Web.settings.overlaid restyling
    (∀ extension ∈ restyling.extensions, extension.Preserves Head.tag) ∧
      (Document.parse settings looseSource).1.visits =
        [.entered "div", .entered "p", .text "a", .left, .entered "div", .text "b", .entered "p",
          .left, .left, .entered "dl", .entered "dt", .text "c", .left, .entered "dt", .text "d",
          .entered "p", .text "e", .left, .entered "p", .text "f", .left, .entered "hr", .left,
          .left, .left, .entered "tr", .entered "td", .entered "p", .text "g", .left, .left,
          .entered "td", .text "h", .left, .left, .left] ∧
      (∀ state ∈ Builder.history settings looseSource, state.IsContained Web.platform) ∧
      (∀ tokens, tokens <+: scan looseSource →
        (Builder.behind settings looseSource tokens).IsContained Web.platform) ∧
      ∀ root ∈ (Document.parse settings looseSource).1.root,
        root.Throughout (Element.Contains Web.platform) := by
  have tags : ∀ extension ∈ restyling.extensions, extension.Preserves Head.tag := by
    intro extension held
    cases List.mem_singleton.mp held
    exact takeBoth_preserves (fun leaves => leaves.tag) (fun _ _ => rfl) _ _ _ _
  exact ⟨tags, by decide +kernel, parse_contained tags looseSource⟩

end Templating.Template
