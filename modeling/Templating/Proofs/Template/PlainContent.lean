import Templating.Proofs.Markup.PlainContent
import Templating.Proofs.Template.Containment
/-!
# Elements whose content is text

Scripts, styles and text areas hold one text at most, if each of them ends where its text
does.  Scanning ends the text where an end tag begins with the tag of the element, but
reading closes the element by an end tag of its very name; where the two differ, the
markup behind the end tag comes into the element.
-/
set_option autoImplicit false

namespace Templating.Template

open Templating.Text Templating.Data Templating.Markup

/-- An element whose content is text holds one text or nothing. -/
def Element.IsPlain (element : Element) : Prop :=
  isPlainTextTag element.head.tag = true →
    element.children = [] ∨ ∃ run, element.children = [.text run]

def plainContent : ContentRule where
  allows tag kinds := isPlainTextTag tag = true → kinds = [] ∨ kinds = [.text]
  fits outer _ := isPlainTextTag outer = false
  empty := fun _ _ => .inl rfl
  shorter := by
    intro tag fewer kinds front single plain
    rcases single plain with rfl | rfl
    · exact .inl (List.prefix_nil.mp front)
    · rcases List.prefix_cons_iff.mp front with none | ⟨behind, rfl, nothing⟩
      · exact .inl none
      · exact .inr (congrArg (Kind.text :: ·) (List.prefix_nil.mp nothing))
  concat := by
    intro outer inner kinds _ markup plain
    rw [markup] at plain
    cases plain

theorem Element.Obeys.isPlain {element : Element} (obeys : element.Obeys plainContent) :
    element.IsPlain := by
  intro plain
  rcases obeys plain with none | single
  · exact .inl (List.map_eq_nil_iff.mp none)
  · obtain ⟨node, only, text⟩ := List.map_eq_singleton_iff.mp single
    cases node with
    | text run => exact .inr ⟨run, only⟩
    | element child => cases text
    | comment comment => cases text

namespace Builder

/-- No open element has content that is text. -/
def InMarkup (builder : Builder) : Prop :=
  ∀ tag ∈ builder.openTags, isPlainTextTag tag = false

/-- Where reading stands, by the tokens to come: in markup, or in an element whose content
is text, before its text or behind it. -/
inductive Awaits (builder : Builder) (tokens : List Token) : Prop where
  | markup (inMarkup : builder.InMarkup)
  | content {element : Element} {outer : List Element} (given : builder.opened = element :: outer)
      (empty : element.children = []) (content : PlainContent (SameTag element.head.tag) tokens)
  | closing {element : Element} {outer : List Element} (given : builder.opened = element :: outer)
      (closing : Closing (SameTag element.head.tag) tokens)

section Reading

variable {settings : Settings} {source : String} {builder before after : Builder}

theorem InMarkup.move (inMarkup : before.InMarkup)
    (move : Move settings source (fun tag => isPlainTextTag tag = false) before after) :
    after.InMarkup := by
  have same (heads : after.opened.map Element.head = before.opened.map Element.head) :
      after.InMarkup := by
    unfold InMarkup
    rw [openTags_of_heads heads]
    exact inMarkup
  cases move with
  | report diagnostics => exact inMarkup
  | text raw span => exact same (text_heads source raw span before)
  | comment content span => exact same (comment_heads content span before)
  | @enter tag named markup attributes span reported =>
    refine List.forall_mem_cons.mpr ⟨?_, inMarkup⟩
    have kept := enter_keeps before
      (before.freshHead settings tag (distinctAttributes tag [] attributes).1 span)
    simp only [kept.tag]
    exact markup
  | lineBreak span => exact same (close_grows _ _).heads
  | @close element outer given span =>
    unfold InMarkup at inMarkup ⊢
    rw [openTags, given, List.map_cons] at inMarkup
    have popped := @close_grows settings { before with opened := outer }
      { element with head := { element.head with span } }
    rw [openTags_of_heads popped.heads]
    exact (List.forall_mem_cons.mp inMarkup).2

theorem InMarkup.moves (inMarkup : before.InMarkup)
    (moves : Moves settings source (fun tag => isPlainTextTag tag = false) before after) :
    after.InMarkup :=
  moves.keep InMarkup (fun _ _ move inMarkup => inMarkup.move move) inMarkup

theorem InMarkup.fits (inMarkup : builder.InMarkup) (tag : String) :
    ∀ parent ∈ builder.openTags.head?, plainContent.fits parent tag := by
  intro parent innermost
  exact inMarkup parent (List.mem_of_mem_head? innermost)

theorem InMarkup.room (inMarkup : builder.InMarkup) (kind : Kind) :
    ∀ parent ∈ builder.opened.head?,
      plainContent.allows parent.head.tag (parent.kinds ++ [kind]) := by
  intro parent innermost plain
  have markup := inMarkup parent.head.tag
    (List.mem_map_of_mem (f := fun element => element.head.tag) (List.mem_of_mem_head? innermost))
  rw [plain] at markup
  cases markup

theorem Obeys.outer {tag : String} {outer : List String} (obeys : builder.Obeys plainContent)
    (given : builder.openTags = tag :: outer) : ∀ other ∈ outer, isPlainTextTag other = false := by
  have nested := obeys.nested
  rw [given] at nested
  clear obeys given
  induction outer generalizing tag with
  | nil => exact List.forall_mem_nil _
  | cons next outer ih =>
    obtain ⟨markup, behind⟩ := List.isChain_cons_cons.mp nested
    exact List.forall_mem_cons.mpr ⟨markup, ih behind⟩

theorem Obeys.tokenInMarkup (tags : ∀ extension ∈ settings.extensions, extension.Preserves Head.tag)
    (obeys : builder.Obeys plainContent) (inMarkup : builder.InMarkup) (token : Token) :
    (builder.token settings source token).Obeys plainContent := by
  have before (tag : String) (span : Span) : (builder.closeBefore settings tag span).InMarkup :=
    inMarkup.moves (@closeBefore_moves settings source _ tag span builder)
  cases token with
  | startTag name attributes selfClosing span =>
    exact (obeys.startTag tags ((before name span).fits name) attributes selfClosing).2
  | endTag name span =>
    exact (obeys.endTag tags (inMarkup.fits "br") ((before "p" span).fits "p") name).2
  | text content span => exact obeys.text (inMarkup.room .text) source content span
  | comment content span => exact obeys.comment (inMarkup.room .comment) content span
  | malformed content span =>
    have reported : (builder.report [.errorAt span (.malformedTag content)]).Obeys plainContent :=
      ⟨obeys.nested, obeys.opened, obeys.root⟩
    exact reported.text (inMarkup.room .text) source content span

theorem InMarkup.startTag {rest : List Token} (inMarkup : builder.InMarkup) {tag : String}
    (named : IsTagName tag) (attributes : List SourceAttribute) (selfClosing : Bool) (span : Span)
    (content : ∀ other ∈ (Token.startTag tag attributes selfClosing span).plainTextTag?,
      PlainContent (SameTag other) rest) :
    (builder.startTag settings tag attributes selfClosing span).Awaits rest := by
  by_cases plain : isPlainTextTag tag = true
  · have outside : (builder.closeBefore settings tag span).InMarkup :=
      inMarkup.moves (@closeBefore_moves settings "" _ tag span builder)
    unfold Builder.startTag
    simp only
    generalize builder.closeBefore settings tag span = before at outside ⊢
    generalize head : before.freshHead settings tag (distinctAttributes tag [] attributes).1 span =
      fresh
    have same : (before.enter fresh).1.tag = tag := by
      rw [(enter_keeps before fresh).tag, ← head]
      rfl
    split
    · -- An element that closes itself is never open.
      refine .markup ?_
      unfold InMarkup
      rw [openTags_of_heads (close_grows _ _).heads]
      exact outside
    · next opens =>
      have lasting : selfClosing = false := by
        by_contra closes
        exact opens (by rw [Bool.eq_true_of_not_eq_false closes, Bool.or_true])
      refine .content rfl rfl ?_
      simp only [same]
      exact content tag (by simp [Token.plainTextTag?, lasting, plain])
  · exact .markup (inMarkup.moves (@startTag_moves settings "" _ tag named
      (Bool.eq_false_iff.mpr plain) attributes selfClosing span builder))

theorem Obeys.endPlain (tags : ∀ extension ∈ settings.extensions, extension.Preserves Head.tag)
    (obeys : builder.Obeys plainContent) {element : Element} {outer : List Element}
    (given : builder.opened = element :: outer) {name : String}
    (own : SameTag element.head.tag name) (span : Span) :
    (builder.endTag settings name span).Obeys plainContent ∧
      (builder.endTag settings name span).InMarkup := by
  have opened : builder.openTags = element.head.tag :: outer.map fun other => other.head.tag := by
    rw [openTags, given, List.map_cons]
  have found : (builder.depthOf? name).isSome = true := by
    rw [depthOf?, given, List.findIdx?_cons, own, if_pos rfl]
    rfl
  unfold Builder.endTag InMarkup
  rw [if_pos found, closeThrough_openTags opened own]
  exact ⟨(obeys.closeThrough tags name span).2, obeys.outer opened⟩

theorem Awaits.text {rest : List Token} {element : Element} {outer : List Element}
    (given : builder.opened = element :: outer) (closing : Closing (SameTag element.head.tag) rest)
    (raw : String) (span : Span) : (builder.text settings source raw span).Awaits rest := by
  have reads := text_reads settings source raw span builder
  generalize builder.text settings source raw span = after at reads ⊢
  cases reads with
  | leftOut diagnostics leaves => exact .closing given closing
  | added diagnostics innermost stays =>
    obtain ⟨rfl, rfl⟩ := List.cons.inj (innermost.symm.trans given)
    exact .closing rfl closing

theorem Awaits.token (tags : ∀ extension ∈ settings.extensions, extension.Preserves Head.tag)
    {token : Token} {rest : List Token} (named : token.IsNamed) (obeys : builder.Obeys plainContent)
    (awaits : builder.Awaits (token :: rest))
    (content : ∀ tag ∈ token.plainTextTag?, PlainContent (SameTag tag) rest) :
    (builder.token settings source token).Obeys plainContent ∧
      (builder.token settings source token).Awaits rest := by
  -- Without a text or behind it, the element is left by its own end tag.
  have leave {element : Element} {outer : List Element} (given : builder.opened = element :: outer)
      (closing : Closing (SameTag element.head.tag) (token :: rest)) :
      (builder.token settings source token).Obeys plainContent ∧
        (builder.token settings source token).Awaits rest := by
    cases closing with
    | endTag own span =>
      obtain ⟨behind, inMarkup⟩ := obeys.endPlain tags given own span
      exact ⟨behind, .markup inMarkup⟩
  cases awaits with
  | markup inMarkup =>
    refine ⟨obeys.tokenInMarkup tags inMarkup token, ?_⟩
    by_cases ordinary : ∀ tag ∈ token.opened?, isPlainTextTag tag = false
    · exact .markup (inMarkup.moves (token_moves named ordinary builder))
    · cases token with
      | startTag name attributes selfClosing span =>
        exact inMarkup.startTag named attributes selfClosing span content
      | endTag name span =>
        exfalso
        apply ordinary
        intro tag opens
        simp only [Token.opened?] at opens
        split at opens
        · cases opens
          decide
        · cases opens
      | text raw span => exact absurd (fun _ held => by cases held) ordinary
      | comment raw span => exact absurd (fun _ held => by cases held) ordinary
      | malformed raw span => exact absurd (fun _ held => by cases held) ordinary
  | content given empty content =>
    cases content with
    | empty closing => exact leave given closing
    | text raw span closing =>
      refine ⟨?_, .text given closing raw span⟩
      apply obeys.text
      intro parent innermost _
      rw [given] at innermost
      cases innermost
      rw [Element.kinds, empty]
      exact .inr rfl
  | closing given closing => exact leave given closing

theorem Awaits.tokens (tags : ∀ extension ∈ settings.extensions, extension.Preserves Head.tag)
    {tokens : List Token} (named : ∀ token ∈ tokens, token.IsNamed)
    (keeps : KeepsPlain SameTag tokens) (obeys : builder.Obeys plainContent)
    (awaits : builder.Awaits tokens) :
    (tokens.foldl (Builder.token settings source) builder).Obeys plainContent := by
  induction tokens generalizing builder with
  | nil => exact obeys
  | cons token rest ih =>
    obtain ⟨first, others⟩ := List.forall_mem_cons.mp named
    obtain ⟨content, behind⟩ := keeps
    obtain ⟨next, stands⟩ := @Awaits.token settings source builder tags token rest first obeys awaits
      content
    exact ih others behind next stands

end Reading

end Builder

/-- On the web, if each script, style and text area is closed by the end tag at which its
text ends, then one text at most is read behind its start tag, and it holds nothing else. -/
theorem parse_plain {overlay : Overlay}
    (tags : ∀ extension ∈ overlay.extensions, extension.Preserves Head.tag) {source : String}
    (closes : closesPlain (scan source) = true) :
    KeepsPlain SameTag (scan source) ∧
      ∀ root ∈ (Document.parse (Web.settings.overlaid overlay) source).1.root,
        root.Throughout Element.IsPlain := by
  have keeps : KeepsPlain SameTag (scan source) := (scan_keepsPlain source).closes closes
  refine ⟨keeps, ?_⟩
  have every := (web_closesAlone tags).tags
  generalize Web.settings.overlaid overlay = settings at every ⊢
  have start : Builder.initial.Awaits (scan source) := by
    apply Builder.Awaits.markup
    intro tag held
    cases held
  have read := @Builder.Awaits.tokens settings source .initial every (scan source)
    (scan_isNamed source) keeps (.initial plainContent) start
  have last := (read.closings every
    ((scan source).foldl (Builder.token settings source) .initial).opened.length).2
  intro root held above element lineage
  exact (last.root root held above element lineage).isPlain

/-- Scripts, styles and text areas with markup inside, in any case, empty, or closed by
themselves. -/
def plainSource : String :=
  "<div><TextArea>a<b></B></textAREA><script/><i>c</i><style><!-- d --></style ><script></script>" ++
    "<textarea> </textarea><textarea/><p></textarea></div>"

theorem plainSource_plain :
    (∀ extension ∈ restyling.extensions, extension.Preserves Head.tag) ∧
      closesPlain (scan plainSource) = true ∧
      KeepsPlain SameTag (scan plainSource) ∧
      ∀ root ∈ (Document.parse (Web.settings.overlaid restyling) plainSource).1.root,
        root.Throughout Element.IsPlain := by
  have tags : ∀ extension ∈ restyling.extensions, extension.Preserves Head.tag := by
    intro extension held
    cases List.mem_singleton.mp held
    exact takeBoth_preserves (fun leaves => leaves.tag) (fun _ _ => rfl) _ _ _ _
  have closes : closesPlain (scan plainSource) = true := by decide +kernel
  exact ⟨tags, closes, parse_plain tags closes⟩

/-- The end tag of another element, whose name begins like that of the text area. -/
def strayedSource : String := "<textarea></textareax><b></b></textarea>"

/-- The text area holds an element. -/
theorem strayedSource_notPlain :
    ¬ ∀ root ∈ (Document.parse Web.settings strayedSource).1.root,
      root.Throughout Element.IsPlain := by
  have read : (Document.parse Web.settings strayedSource).1.root.map
      (fun root => (root.head.tag, root.kinds)) = some ("textarea", [.element "b"]) := by
    decide +kernel
  generalize (Document.parse Web.settings strayedSource).1.root = tree at read ⊢
  obtain ⟨root, rfl, both⟩ := Option.map_eq_some_iff.mp read
  obtain ⟨tag, kinds⟩ := Prod.mk.inj both
  have isPlain : isPlainTextTag root.head.tag = true := by
    rw [tag]
    decide
  intro plain
  rcases (Element.throughout_iff.mp (plain root rfl)).1 isPlain with none | ⟨run, single⟩
  · rw [Element.kinds, none] at kinds
    cases kinds
  · rw [Element.kinds, single] at kinds
    cases kinds

end Templating.Template
