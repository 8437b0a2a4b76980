import Templating.Proofs.Template.Course
/-!
# Reading token by token

A stroke is a step of reading that knows the token it comes from: an element opens by a
start tag, or by an end tag that closes nothing, and starts where that token does; what
is reported about the token has been reported by then.  Where an element starts does not
change when it closes.
-/
set_option autoImplicit false

namespace Templating.Markup

open Templating.Text

inductive Token.Opens : Token → (tag : String) → List SourceAttribute → Prop where
  | startTag (tag : String) (attributes : List SourceAttribute) (selfClosing : Bool) (span : Span) :
    Opens (.startTag tag attributes selfClosing span) tag attributes
  | lineBreak {name : String} (named : sameIgnoringAsciiCase name "br" = true) (span : Span) :
    Opens (.endTag name span) "br" []
  | paragraph {name : String} (named : sameIgnoringAsciiCase name "p" = true) (span : Span) :
    Opens (.endTag name span) "p" []

theorem Token.Opens.isTagName {token : Token} {tag : String} {attributes : List SourceAttribute}
    (opens : token.Opens tag attributes) (named : token.IsNamed) : IsTagName tag := by
  cases opens with
  | startTag => exact named
  | lineBreak => decide
  | paragraph => decide

end Templating.Markup

namespace Templating.Template

open Templating.Text Templating.Data Templating.Markup

namespace Builder

/-- One step of reading some of the tokens. -/
inductive Stroke (settings : Settings) (source : String) (tokens : List Token) :
    Builder → Builder → Prop where
  | report (builder : Builder) (diagnostics : List Diagnostic) :
    Stroke settings source tokens builder (builder.report diagnostics)
  | text (builder : Builder) (raw : String) (span : Span) :
    Stroke settings source tokens builder (builder.text settings source raw span)
  | comment (builder : Builder) (content : String) (span : Span) :
    Stroke settings source tokens builder (builder.comment settings content span)
  | enter (builder : Builder) {token : Token} (held : token ∈ tokens) {tag : String}
      {attributes : List SourceAttribute} (opens : token.Opens tag attributes)
      (reported : builder.startDiagnostics settings tag attributes token.span ⊆ builder.diagnostics) :
    Stroke settings source tokens builder
      (builder.opening settings tag
        (builder.freshHead settings tag (distinctAttributes tag [] attributes).1 token.span))
  | lineBreak (builder : Builder) {token : Token} (held : token ∈ tokens)
      (opens : token.Opens "br" []) :
    Stroke settings source tokens builder
      (({ builder with nextId := builder.nextId + 1 } : Builder).close settings
        ⟨Head.new builder.nextId "br" [] token.span, [], []⟩)
  | close {builder : Builder} {element : Element} {outer : List Element}
      (given : builder.opened = element :: outer) (stop : Nat) :
    Stroke settings source tokens builder
      (({ builder with opened := outer } : Builder).close settings
        { element with head := { element.head with span := ⟨element.head.span.start, stop⟩ } })

def Strokes (settings : Settings) (source : String) (tokens : List Token) :
    Builder → Builder → Prop :=
  Relation.ReflTransGen (Stroke settings source tokens)

section Strokes

variable {settings : Settings} {source : String} {tokens : List Token} {before after : Builder}

theorem Strokes.keep (strokes : Strokes settings source tokens before after)
    (holds : Builder → Prop)
    (stroke : ∀ first second, Stroke settings source tokens first second → holds first → holds second)
    (start : holds before) : holds after := by
  induction strokes with
  | refl => exact start
  | tail _ last ih => exact stroke _ _ last ih

theorem Stroke.steps (named : ∀ token ∈ tokens, token.IsNamed)
    (stroke : Stroke settings source tokens before after) : Steps settings before after := by
  cases stroke with
  | report diagnostics => exact .single (.report before diagnostics)
  | text raw span => exact text_steps source raw span before
  | comment content span => exact comment_steps content span before
  | @enter token held tag attributes opens reported =>
    refine .single (.enter before (opens.isTagName (named token held)) attributes token.span ?_)
    intro outermost first diagnostic unfit
    apply reported
    refine List.mem_append_right _ ?_
    rw [outermost, first]
    exact unfit
  | @lineBreak token held opens => exact .single (.lineBreak before token.span)
  | close given stop => exact .single (.close given _)

theorem closeUnmatched_strokes (builder : Builder) :
    Strokes settings source tokens builder (builder.closeUnmatched settings) := by
  unfold closeUnmatched
  split
  · exact .refl
  · next element outer given =>
    let reported := builder.report [.errorAt element.head.span (.unclosedTag element.head.tag)]
    have innermost : reported.opened = element :: outer := given
    exact (Relation.ReflTransGen.single (.report builder _)).tail
      (Stroke.close innermost element.head.span.stop)

theorem closeAllUnmatched_strokes (count : Nat) (builder : Builder) :
    Strokes settings source tokens builder (builder.closeAllUnmatched settings count) := by
  induction count generalizing builder with
  | zero => exact .refl
  | succ count ih => exact (closeUnmatched_strokes builder).trans (ih _)

theorem closeThrough_strokes (tag : String) (span : Span) (builder : Builder) :
    Strokes settings source tokens builder (builder.closeThrough settings tag span) := by
  unfold closeThrough
  split
  · exact .refl
  · next depth found =>
    refine (closeAllUnmatched_strokes depth builder).trans ?_
    unfold closeMatched
    split
    · exact .refl
    · next given => exact .single (.close given span.stop)

theorem closeBefore_strokes (tag : String) (span : Span) (builder : Builder) :
    Strokes settings source tokens builder (builder.closeBefore settings tag span) := by
  have outside : Strokes settings source tokens builder
      (builder.outsideParagraph settings tag span) := by
    unfold outsideParagraph
    split
    · exact closeThrough_strokes _ _ _
    · exact .refl
  refine outside.trans ?_
  change Strokes settings source tokens _
    (if settings.platform.mayStayOpen tag &&
        (builder.outsideParagraph settings tag span).opened.head?.any (·.head.tag == tag) then
      (builder.outsideParagraph settings tag span).closeThrough settings tag ⟨span.start, span.start⟩
    else builder.outsideParagraph settings tag span)
  split
  · exact closeThrough_strokes _ _ _
  · exact .refl

theorem startTag_strokes {token : Token} (held : token ∈ tokens) {tag : String}
    {attributes : List SourceAttribute} (opens : token.Opens tag attributes) (selfClosing : Bool)
    (builder : Builder) :
    Strokes settings source tokens builder
      (builder.startTag settings tag attributes selfClosing token.span) := by
  refine (closeBefore_strokes tag token.span builder).trans ?_
  have entered : Stroke settings source tokens
      ((builder.closeBefore settings tag token.span).report
        ((builder.closeBefore settings tag token.span).startDiagnostics settings tag attributes
          token.span))
      (builder.behindStart settings tag attributes token.span) :=
    .enter _ held opens (List.subset_append_right _ _)
  have opened : Strokes settings source tokens (builder.closeBefore settings tag token.span)
      (builder.behindStart settings tag attributes token.span) :=
    (Relation.ReflTransGen.single (.report _ _)).tail entered
  unfold Builder.startTag
  simp only
  split
  · exact opened.tail (.close rfl _)
  · exact opened

theorem token_strokes {token : Token} (held : token ∈ tokens) (builder : Builder) :
    Strokes settings source tokens builder (builder.token settings source token) := by
  cases token with
  | startTag name attributes selfClosing span =>
    exact startTag_strokes held (.startTag name attributes selfClosing span) selfClosing builder
  | endTag name span =>
    unfold Builder.token Builder.endTag
    simp only
    split
    · exact closeThrough_strokes name span builder
    · split
      · next named =>
        have broken := @Stroke.lineBreak settings source tokens builder _ held (.lineBreak named span)
        simp only [Token.span] at broken
        exact .single broken
      · split
        · next named =>
          exact (startTag_strokes held (.paragraph named span) false builder).trans
            (closeThrough_strokes "p" span _)
        · exact .single (.report builder _)
  | text content span => exact .single (.text builder content span)
  | comment content span => exact .single (.comment builder content span)
  | malformed content span =>
    exact (Relation.ReflTransGen.single (.report builder _)).tail (.text _ content span)

theorem tokens_strokes {read : List Token} (all : read ⊆ tokens) (builder : Builder) :
    Strokes settings source tokens builder (read.foldl (Builder.token settings source) builder) := by
  induction read generalizing builder with
  | nil => exact .refl
  | cons token rest ih =>
    obtain ⟨held, others⟩ := List.cons_subset.mp all
    exact (token_strokes held builder).trans (ih others _)

end Strokes

end Builder

/-- A document is read in strokes. -/
theorem parse_strokes (settings : Settings) (source : String) :
    ∃ final : Builder, Builder.Strokes settings source (scan source) .initial final ∧
      Document.parse settings source = (⟨final.root, final.nextId⟩, final.diagnostics) := by
  refine ⟨_, (Builder.tokens_strokes (List.Subset.refl _) .initial).trans ?_, rfl⟩
  exact Builder.closeAllUnmatched_strokes _ _

end Templating.Template
