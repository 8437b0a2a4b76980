import Templating.Proofs.Markup.Tiling
import Templating.Proofs.Template.Chains
import Templating.Proofs.Template.Lossless
import Templating.Proofs.Template.Spacing
/-!
# Preformatted text

Reading knows of preformatted text by one switch, which the start tag of a
preformatted element turns on and the end of any such element turns off.  So it
is on for as long as none has ended of those that were open behind the last start
tag.  While it is on, a text is kept as it is, but for a single space behind
another.
-/
set_option autoImplicit false

namespace Templating.Template

open Templating.Text Templating.Data Templating.Markup Templating.Rendering

/-! ## Texts -/

theorem decodeWith_ne_nil (known : String → Option Char) {source : List Char} (visible : source ≠ []) :
    decodeWith known 0 source ≠ [] := by
  cases source with
  | nil => exact visible
  | cons first rest =>
    unfold decodeWith
    repeat' split
    all_goals exact List.cons_ne_nil _ _

theorem decodeText_ne_empty {content : String} (visible : content ≠ "") : decodeText content ≠ "" := by
  have decoded := decodeWith_ne_nil textReference? fun none => visible (String.toList_eq_nil_iff.mp none)
  intro none
  exact decoded (by simpa [decodeText] using none)

theorem scan_text_ne_empty {source raw : String} {span : Span} (held : .text raw span ∈ scan source) :
    raw ≠ "" := by
  obtain ⟨front, taken, behind, split, stands⟩ := scan_stands source _ held
  have wide := ((scan_tiles source).spans.1 _ held).2
  have taken : taken = raw.toList := stands.parts
  rw [stands.span, taken] at wide
  rintro rfl
  simp [byteLength] at wide

namespace Builder

def behind (settings : Settings) (source : String) (tokens : List Token) : Builder :=
  tokens.foldl (Builder.token settings source) .initial

theorem behind_concat (settings : Settings) (source : String) (tokens : List Token) (token : Token) :
    behind settings source (tokens ++ [token]) =
      (behind settings source tokens).token settings source token := by
  simp [behind]

def preformattedDepth (settings : Settings) (builder : Builder) : Nat :=
  (builder.opened.map Element.head).countP fun head => settings.platform.isPreformatted head.tag

/-- Those preformatted elements are still open that were open behind the last
start tag of one, which has an end tag of its own to come. -/
def InLastPreformatted (settings : Settings) (source : String) (tokens : List Token) : Prop :=
  ∃ earlier tag attributes span since,
    tokens = earlier ++ .startTag tag attributes false span :: since ∧
      settings.platform.isPreformatted tag = true ∧
      (∀ token ∈ since, ∀ other ∈ token.opened?, settings.platform.isPreformatted other = false) ∧
      (behind settings source tokens).preformattedDepth settings =
        (behind settings source
          (earlier ++ [.startTag tag attributes false span])).preformattedDepth settings

/-- The rules of a platform with preformatted elements that have content, and extensions
that leave tags alone. -/
structure KeepsText (settings : Settings) : Prop where
  tag : ∀ extension ∈ settings.extensions, extension.Preserves Head.tag
  content : ∀ tag, settings.platform.isPreformatted tag = true → settings.platform.isUnary tag = false
  lineBreak : settings.platform.isPreformatted "br" = false
  paragraph : settings.platform.isPreformatted "p" = false

/-- Of `depth` preformatted elements that were open none has ended, as long as the switch is
on. -/
structure Lasts (settings : Settings) (depth : Nat) (builder : Builder) : Prop where
  atMost : builder.preformattedDepth settings ≤ depth
  exact : builder.isPreformatted = true ↔ builder.preformattedDepth settings = depth

section Moves

variable {settings : Settings} {source : String} {before after : Builder} {depth : Nat}

theorem depth_of_heads (heads : after.opened.map Element.head = before.opened.map Element.head) :
    after.preformattedDepth settings = before.preformattedDepth settings := by
  rw [preformattedDepth, heads, preformattedDepth]

theorem Lasts.same (lasts : before.Lasts settings depth)
    (heads : after.preformattedDepth settings = before.preformattedDepth settings)
    (switch : after.isPreformatted = before.isPreformatted) : after.Lasts settings depth :=
  ⟨heads ▸ lasts.atMost, by rw [switch, heads, lasts.exact]⟩

theorem updateParent_heads (builder : Builder) {change : Element → Element}
    (kept : ∀ element, (change element).head = element.head) :
    (builder.updateParent change).opened.map Element.head = builder.opened.map Element.head := by
  unfold updateParent
  split
  · rfl
  · next given => simp only [given, List.map_cons, kept]

theorem text_heads (source raw : String) (span : Span) (builder : Builder) :
    (builder.text settings source raw span).opened.map Element.head =
      builder.opened.map Element.head := by
  have reads := text_reads settings source raw span builder
  generalize builder.text settings source raw span = after at reads ⊢
  cases reads with
  | leftOut diagnostics leaves => rfl
  | added diagnostics given stays =>
    rw [given]
    rfl

theorem comment_heads (content : String) (span : Span) (builder : Builder) :
    (builder.comment settings content span).opened.map Element.head =
      builder.opened.map Element.head := by
  unfold comment
  split
  · exact updateParent_heads _ fun _ => rfl
  · rfl

theorem close_isPreformatted (keeps : KeepsText settings) (builder : Builder) (element : Element) :
    (builder.close settings element).isPreformatted =
      if settings.platform.isPreformatted element.head.tag then false else builder.isPreformatted := by
  obtain ⟨closed, diagnostics, closes, same⟩ := close_eq settings builder element
  have tag := closes.field (fun leaves => leaves.tag) keeps.tag
  rw [same, ← tag]
  unfold leave
  simp only [place_isPreformatted]
  rfl

theorem close_depth (builder : Builder) (element : Element) :
    (builder.close settings element).preformattedDepth settings =
      builder.preformattedDepth settings :=
  depth_of_heads (close_grows builder element).heads

theorem opening_depth (builder : Builder) (tag : String) (attributes : List SourceAttribute)
    (span : Span) :
    (builder.opening settings tag (builder.freshHead settings tag attributes span)).preformattedDepth
        settings =
      builder.preformattedDepth settings + if settings.platform.isPreformatted tag then 1 else 0 := by
  have kept := enter_keeps builder (builder.freshHead settings tag attributes span)
  unfold preformattedDepth opening
  rw [List.map_cons, List.countP_cons]
  simp only [kept.tag]
  rfl

/-- The end of a preformatted element is the end of all that lasts. -/
theorem Lasts.close (keeps : KeepsText settings) (lasts : before.Lasts settings depth)
    {element : Element} {outer : List Element} (given : before.opened = element :: outer)
    (head : Head) (tag : head.tag = element.head.tag) :
    (({ before with opened := outer } : Builder).close settings { element with head }).Lasts settings
      depth := by
  have switch := close_isPreformatted keeps { before with opened := outer } { element with head }
  have left := @close_depth settings { before with opened := outer } { element with head }
  have ended : before.preformattedDepth settings =
      preformattedDepth settings { before with opened := outer } +
        if settings.platform.isPreformatted element.head.tag then 1 else 0 := by
    unfold preformattedDepth
    rw [given, List.map_cons, List.countP_cons]
  simp only [tag] at switch
  obtain ⟨atMost, exact⟩ := lasts
  cases preformatted : settings.platform.isPreformatted element.head.tag with
  | false =>
    rw [preformatted] at switch ended
    exact Lasts.same ⟨atMost, exact⟩ (left.trans ended.symm) switch
  | true =>
    rw [preformatted, if_pos rfl] at switch ended
    refine ⟨by omega, ?_⟩
    rw [switch, left]
    constructor
    · exact fun on => Bool.noConfusion on
    · intro all
      omega

theorem Lasts.move (keeps : KeepsText settings) (lasts : before.Lasts settings depth)
    (move : Move settings source (fun tag => settings.platform.isPreformatted tag = false)
      before after) : after.Lasts settings depth := by
  cases move with
  | report diagnostics => exact lasts.same rfl rfl
  | text raw span =>
    exact lasts.same (depth_of_heads (text_heads _ _ _ _)) (text_isPreformatted _ _ _ _)
  | comment content span =>
    exact lasts.same (depth_of_heads (comment_heads _ _ _)) (comment_isPreformatted _ _ _)
  | enter named ordinary attributes span reported =>
    refine lasts.same ?_ ?_
    · rw [opening_depth, if_neg (Bool.eq_false_iff.mp ordinary), Nat.add_zero]
    · exact (congrArg (before.isPreformatted || ·) ordinary).trans (Bool.or_false _)
  | lineBreak span =>
    refine lasts.same (close_depth _ _) ?_
    rw [close_isPreformatted keeps]
    exact if_neg (Bool.eq_false_iff.mp keeps.lineBreak)
  | close given span => exact lasts.close keeps given _ rfl

/-! ## The switch -/

theorem opens_cases (keeps : KeepsText settings) (token : Token) :
    (∀ tag ∈ token.opened?, settings.platform.isPreformatted tag = false) ∨
      ∃ tag attributes selfClosing span, token = .startTag tag attributes selfClosing span ∧
        settings.platform.isPreformatted tag = true := by
  cases token with
  | startTag name attributes selfClosing span =>
    cases preformatted : settings.platform.isPreformatted name with
    | true => exact .inr ⟨name, attributes, selfClosing, span, rfl, preformatted⟩
    | false =>
      refine .inl fun tag held => ?_
      cases held
      exact preformatted
  | endTag name span =>
    refine .inl fun tag held => ?_
    rw [Token.opened?] at held
    split at held
    · cases held
      exact keeps.paragraph
    · cases held
  | text content span => exact .inl fun _ held => by cases held
  | comment content span => exact .inl fun _ held => by cases held
  | malformed content span => exact .inl fun _ held => by cases held

theorem startTag_isPreformatted (keeps : KeepsText settings) {tag : String}
    (preformatted : settings.platform.isPreformatted tag = true) (attributes : List SourceAttribute)
    (selfClosing : Bool) (span : Span) (builder : Builder) :
    (builder.startTag settings tag attributes selfClosing span).isPreformatted = !selfClosing := by
  unfold startTag
  simp only [keeps.content tag preformatted, Bool.false_or]
  generalize builder.closeBefore settings tag span = outside
  have kept := enter_keeps outside
    (outside.freshHead settings tag (distinctAttributes tag [] attributes).1 span)
  generalize outside.enter _ = entered at kept ⊢
  have named : entered.1.tag = tag := kept.tag
  cases selfClosing with
  | true =>
    rw [if_pos rfl, close_isPreformatted keeps, named, preformatted]
    rfl
  | false =>
    show (outside.isPreformatted || settings.platform.isPreformatted tag) = true
    rw [preformatted, Bool.or_true]

theorem lasts_since (keeps : KeepsText settings) {tag : String}
    (preformatted : settings.platform.isPreformatted tag = true) (earlier : List Token)
    (attributes : List SourceAttribute) (span : Span) {since : List Token}
    (named : ∀ token ∈ since, token.IsNamed)
    (ordinary : ∀ token ∈ since, ∀ other ∈ token.opened?,
      settings.platform.isPreformatted other = false) :
    let opening := Token.startTag tag attributes false span
    (behind settings source (earlier ++ opening :: since)).Lasts settings
      ((behind settings source (earlier ++ [opening])).preformattedDepth settings) := by
  intro opening
  have moves := @tokens_moves settings source _ _ named ordinary
    (behind settings source (earlier ++ [opening]))
  have state : behind settings source (earlier ++ opening :: since) =
      since.foldl (Builder.token settings source) (behind settings source (earlier ++ [opening])) := by
    rw [behind, behind, ← List.foldl_append, List.append_assoc, List.singleton_append]
  rw [state]
  refine moves.keep _ (fun _ _ move lasts => lasts.move keeps move) ⟨Nat.le_refl _, ?_⟩
  refine iff_of_true ?_ rfl
  rw [behind_concat]
  exact startTag_isPreformatted keeps preformatted attributes false span _

theorem inLastPreformatted_of_isPreformatted (keeps : KeepsText settings) {tokens : List Token}
    (named : ∀ token ∈ tokens, token.IsNamed)
    (on : (behind settings source tokens).isPreformatted = true) :
    InLastPreformatted settings source tokens := by
  induction tokens using List.reverseRecOn with
  | nil => cases on
  | append_singleton tokens token ih =>
    rcases opens_cases keeps token with ordinary | ⟨tag, attributes, selfClosing, span, rfl, opens⟩
    · have moves : Moves settings source (fun tag => settings.platform.isPreformatted tag = false)
          (behind settings source tokens) (behind settings source (tokens ++ [token])) := by
        rw [behind_concat]
        exact token_moves (named token (by simp)) ordinary _
      have already : (behind settings source tokens).isPreformatted = true := by
        by_contra flowing
        have still := moves.keep (fun builder => builder.isPreformatted = false)
          (fun _ _ move flowing => move.flowing (fun _ same => same) flowing)
          (Bool.eq_false_iff.mpr flowing)
        rw [on] at still
        cases still
      obtain ⟨earlier, tag, attributes, span, since, rfl, opens, others, -⟩ :=
        ih (fun other held => named other (List.mem_append_left _ held)) already
      have none : ∀ other ∈ since ++ [token], ∀ tag ∈ other.opened?,
          settings.platform.isPreformatted tag = false := by
        intro other held
        rcases List.mem_append.mp held with held | held
        · exact others other held
        · exact List.mem_singleton.mp held ▸ ordinary
      have split : earlier ++ .startTag tag attributes false span :: since ++ [token] =
          earlier ++ .startTag tag attributes false span :: (since ++ [token]) := by
        simp
      refine ⟨earlier, tag, attributes, span, since ++ [token], split, opens, none, ?_⟩
      rw [split] at on named ⊢
      refine (lasts_since keeps opens earlier attributes span (fun other held => ?_) none).exact.mp on
      exact named other (List.mem_append_right _ (List.mem_cons_of_mem _ held))
    · rw [behind_concat] at on
      have still := startTag_isPreformatted keeps opens attributes selfClosing span
        (behind settings source tokens)
      cases selfClosing with
      | true => exact Bool.noConfusion (on.symm.trans still)
      | false => exact ⟨tokens, tag, attributes, span, [], rfl, opens, fun _ held => (by cases held), rfl⟩

/-- The switch is on where those are still open that were open behind the last start tag
of a preformatted element, and nowhere else. -/
theorem behind_isPreformatted_iff (keeps : KeepsText settings) {tokens : List Token}
    (named : ∀ token ∈ tokens, token.IsNamed) :
    (behind settings source tokens).isPreformatted = true ↔
      InLastPreformatted settings source tokens := by
  refine ⟨inLastPreformatted_of_isPreformatted keeps named, ?_⟩
  rintro ⟨earlier, tag, attributes, span, since, rfl, opens, ordinary, depth⟩
  refine (lasts_since keeps opens earlier attributes span (fun other held => ?_) ordinary).exact.mpr depth
  exact named other (List.mem_append_right _ (List.mem_cons_of_mem _ held))

theorem startTag_depth_pos (keeps : KeepsText settings) {tag : String}
    (preformatted : settings.platform.isPreformatted tag = true) (attributes : List SourceAttribute)
    (span : Span) (builder : Builder) :
    0 < (builder.startTag settings tag attributes false span).preformattedDepth settings := by
  unfold startTag
  simp only [keeps.content tag preformatted, Bool.or_false, Bool.false_eq_true, if_false]
  generalize builder.closeBefore settings tag span = outside
  have kept := enter_keeps outside
    (outside.freshHead settings tag (distinctAttributes tag [] attributes).1 span)
  generalize outside.enter _ = entered at kept ⊢
  refine List.countP_pos_iff.mpr ⟨entered.1, List.mem_cons_self, ?_⟩
  rw [kept.tag]
  exact preformatted

theorem InLastPreformatted.isOpen (keeps : KeepsText settings) {tokens : List Token}
    (inside : InLastPreformatted settings source tokens) :
    (behind settings source tokens).opened ≠ [] := by
  obtain ⟨earlier, tag, attributes, span, since, -, opens, -, depth⟩ := inside
  have positive := startTag_depth_pos keeps opens attributes span (behind settings source earlier)
  rw [behind_concat] at depth
  intro none
  rw [preformattedDepth, none] at depth
  exact absurd depth.symm (Nat.ne_of_gt positive)

end Moves

/-- The text becomes the last child of the innermost open element, with just this content. -/
def AddsText (settings : Settings) (content : String) (span : Span) (before after : Builder) : Prop :=
  ∃ parent outer, before.opened = parent :: outer ∧
    after.opened = parent.addChild (.text ⟨before.nextId, content,
      writtenSegments settings before.isVerbatim content, span⟩) :: outer

/-- The content of a text as it stands: with its references decoded, but not in scripts and
styles. -/
def contentInside (builder : Builder) (raw : String) : String :=
  if builder.opened.head?.any fun parent => isRawTextTag parent.head.tag then raw else decodeText raw

theorem text_adds {settings : Settings} {source raw : String} {before : Builder}
    (on : before.isPreformatted = true) (inside : before.opened ≠ []) (visible : raw ≠ "")
    (span : Span) :
    AddsText settings (before.contentInside raw) span before (before.text settings source raw span) ∨
      before.contentInside raw = " " ∧
        (before.opened.head?.any fun parent => parent.children.getLast?.any Node.isBlankSpace) = true ∧
        (before.text settings source raw span).opened = before.opened := by
  obtain ⟨parent, outer, given⟩ := List.exists_cons_of_ne_nil inside
  have content : writtenText settings parent before.isPreformatted raw = before.contentInside raw := by
    simp [writtenText, textContent, contentInside, on, given]
  have reads := text_reads settings source raw span before
  generalize before.text settings source raw span = after at reads ⊢
  cases reads with
  | leftOut diagnostics leaves =>
    have out : LeavesOut settings raw before parent := leaves parent (by rw [given]; rfl)
    rcases out with nothing | ⟨space, behind⟩
    · exfalso
      rw [content, contentInside] at nothing
      split at nothing
      · exact visible nothing
      · exact decodeText_ne_empty visible nothing
    · refine .inr ⟨content ▸ space, ?_, rfl⟩
      rw [given]
      exact behind
  | @added _ other others here stays =>
    rw [given] at here
    cases here
    refine .inl ⟨parent, outer, given, ?_⟩
    unfold addedText
    rw [content]

end Builder

/-- On the web a text is taken as preformatted exactly where those preformatted elements are
still open that were open behind the last start tag of one.  There it is added as it stands,
but for a single space behind another. -/
theorem text_inLastPreformatted {overlay : Overlay} (unextended : overlay.extensions = [])
    {source raw : String} {span : Span} {before rest : List Token}
    (read : scan source = before ++ .text raw span :: rest) :
    let settings := Web.settings.overlaid overlay
    let state := Builder.behind settings source before
    let after := state.token settings source (.text raw span)
    (state.isPreformatted = true ↔ Builder.InLastPreformatted settings source before) ∧
      (Builder.InLastPreformatted settings source before →
        Builder.AddsText settings (state.contentInside raw) span state after ∨
          state.contentInside raw = " " ∧
            (state.opened.head?.any fun parent =>
              parent.children.getLast?.any Node.isBlankSpace) = true ∧
            after.opened = state.opened) := by
  intro settings state after
  have keeps : Builder.KeepsText settings :=
    { tag := base_preserves (.inl rfl) unextended (fun leaves => leaves.tag) fun _ _ => rfl
      content := by
        intro tag preformatted
        obtain rfl : tag = "pre" := eq_of_beq preformatted
        show Web.platform.isUnary "pre" = false
        decide
      lineBreak := show Web.platform.isPreformatted "br" = false by decide
      paragraph := show Web.platform.isPreformatted "p" = false by decide }
  have named : ∀ token ∈ before, token.IsNamed := fun token held =>
    scan_isNamed source token (read ▸ List.mem_append_left _ held)
  have switch := @Builder.behind_isPreformatted_iff settings source keeps _ named
  have visible : raw ≠ "" := scan_text_ne_empty (read ▸ List.mem_append_right _ List.mem_cons_self)
  exact ⟨switch, fun inside =>
    Builder.text_adds (switch.mpr inside) (inside.isOpen keeps) visible span⟩

/-- An element inside preformatted text. -/
def indentedSource : String := "<pre>a<b>\n  c</b></pre>"

theorem indentedSource_adds :
    let settings := Web.settings.overlaid condensing
    let before := (scan indentedSource).take 3
    let state := Builder.behind settings indentedSource before
    condensing.extensions = [] ∧
      scan indentedSource = before ++ .text "\n  c" ⟨9, 13⟩ :: (scan indentedSource).drop 4 ∧
      Builder.InLastPreformatted settings indentedSource before ∧
      Builder.AddsText settings "\n  c" ⟨9, 13⟩ state
        (state.token settings indentedSource (.text "\n  c" ⟨9, 13⟩)) := by
  intro settings before state
  have read : scan indentedSource = before ++ .text "\n  c" ⟨9, 13⟩ :: (scan indentedSource).drop 4 := by
    decide +kernel
  have unextended : condensing.extensions = [] := rfl
  obtain ⟨switch, adds⟩ := text_inLastPreformatted unextended read
  have on : state.isPreformatted = true := by decide +kernel
  have content : state.contentInside "\n  c" = "\n  c" := by decide +kernel
  have inside := switch.mp on
  refine ⟨unextended, read, inside, ?_⟩
  rcases adds inside with adds | ⟨space, -⟩
  · exact content ▸ adds
  · exact absurd (content.symm.trans space) (by decide)

/-- The second element is empty, and ends the first one's text. -/
def nestedSource : String := "<pre><pre></pre>a  b</pre>"

/-- Not every text inside a preformatted element is added as it stands. -/
theorem nestedSource_condensed :
    let settings := Web.settings.overlaid condensing
    ¬ ∀ (before rest : List Token) (raw : String) (span : Span),
      scan nestedSource = before ++ .text raw span :: rest →
        let state := Builder.behind settings nestedSource before
        0 < state.preformattedDepth settings →
          Builder.AddsText settings (state.contentInside raw) span state
            (state.token settings nestedSource (.text raw span)) := by
  intro settings kept
  let before := (scan nestedSource).take 3
  have read : scan nestedSource = before ++ .text "a  b" ⟨16, 20⟩ :: (scan nestedSource).drop 4 := by
    decide +kernel
  have inside : 0 < (Builder.behind settings nestedSource before).preformattedDepth settings := by
    decide +kernel
  obtain ⟨parent, outer, -, opened⟩ := kept before _ "a  b" ⟨16, 20⟩ read inside
  have content : (Builder.behind settings nestedSource before).contentInside "a  b" = "a  b" := by
    decide +kernel
  have last := congrArg (fun opened : List Element =>
    opened.head?.bind fun parent => (visitsOfNodes parent.children).getLast?) opened
  have seen : shown "a  b" = [.text "a  b"] := by decide
  simp only [content, List.head?_cons, Option.bind_some, visitsOfNodes_addChild, Node.visits, seen,
    List.getLast?_append, List.getLast?_singleton, Option.some_or] at last
  exact absurd last (by decide +kernel)

end Templating.Template
