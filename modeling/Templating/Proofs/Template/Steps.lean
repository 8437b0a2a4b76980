import Mathlib.Logic.Relation
import Templating.Proofs.Template.Reading
/-!
# Steps of reading

Whatever the tokens are, reading a template is a run of a few kinds of moves: it
reports, reads a text or comment, opens an element, or closes the innermost one.
Steps are moves in which it no longer counts what a text or comment holds.  What
all of these keep holds when a template has been read.
-/
set_option autoImplicit false

namespace Templating.Markup

open Templating.Text

/-- The tag of the element that a token may open: that of a start tag, or a
paragraph that was never opened. -/
def Token.opened? : Token → Option String
  | .startTag name _ _ _ => some name
  | .endTag name _ => if sameIgnoringAsciiCase name "p" then some "p" else none
  | _ => none

end Templating.Markup

namespace Templating.Template

open Templating.Text Templating.Data Templating.Markup

namespace Builder

def opening (settings : Settings) (tag : String) (fresh : Head) (builder : Builder) : Builder :=
  { builder with
    nextId := builder.nextId + 1
    verbatimRoot := (builder.enter fresh).2.1
    isPreformatted := builder.isPreformatted || settings.platform.isPreformatted tag
    opened := ⟨(builder.enter fresh).1, [], []⟩ :: builder.opened }

inductive Step (settings : Settings) : Builder → Builder → Prop where
  | report (builder : Builder) (diagnostics : List Diagnostic) :
    Step settings builder (builder.report diagnostics)
  /-- A text that is left out still has a number. -/
  | spend (builder : Builder) : Step settings builder { builder with nextId := builder.nextId + 1 }
  | text {builder : Builder} {parent : Element} {outer : List Element}
      (given : builder.opened = parent :: outer) (content : String) (segments : List Segment)
      (span : Span) (plain : builder.isVerbatim = true → segments = []) :
    Step settings builder
      { builder with
        nextId := builder.nextId + 1
        opened := parent.addChild (.text ⟨builder.nextId, content, segments, span⟩) :: outer }
  | comment {builder : Builder} {parent : Element} {outer : List Element}
      (given : builder.opened = parent :: outer) (content : String) (span : Span) :
    Step settings builder
      { builder with
        nextId := builder.nextId + 1
        opened := parent.addChild (.comment ⟨builder.nextId, content, span⟩) :: outer }
  /-- What cannot be the root has been reported. -/
  | enter (builder : Builder) {tag : String} (named : IsTagName tag)
      (attributes : List SourceAttribute) (span : Span)
      (reported : builder.opened = [] → builder.root = none →
        rootDiagnostics (builder.enter
            (builder.freshHead settings tag (distinctAttributes tag [] attributes).1 span)).1 ⊆
          builder.diagnostics) :
    Step settings builder
      (builder.opening settings tag
        (builder.freshHead settings tag (distinctAttributes tag [] attributes).1 span))
  /-- A line break that was never opened. -/
  | lineBreak (builder : Builder) (span : Span) :
    Step settings builder
      (({ builder with nextId := builder.nextId + 1 } : Builder).close settings
        ⟨Head.new builder.nextId "br" [] span, [], []⟩)
  | close {builder : Builder} {element : Element} {outer : List Element}
      (given : builder.opened = element :: outer) (span : Span) :
    Step settings builder
      (({ builder with opened := outer } : Builder).close settings
        { element with head := { element.head with span } })

def Steps (settings : Settings) : Builder → Builder → Prop := Relation.ReflTransGen (Step settings)

/-- One move of reading: a step in which texts and comments are those of the
template, and only elements with a tag that `opens` are opened. -/
inductive Move (settings : Settings) (source : String) (opens : String → Prop) :
    Builder → Builder → Prop where
  | report (builder : Builder) (diagnostics : List Diagnostic) :
    Move settings source opens builder (builder.report diagnostics)
  | text (builder : Builder) (raw : String) (span : Span) :
    Move settings source opens builder (builder.text settings source raw span)
  | comment (builder : Builder) (content : String) (span : Span) :
    Move settings source opens builder (builder.comment settings content span)
  /-- What cannot be the root has been reported. -/
  | enter (builder : Builder) {tag : String} (named : IsTagName tag) (allowed : opens tag)
      (attributes : List SourceAttribute) (span : Span)
      (reported : builder.opened = [] → builder.root = none →
        rootDiagnostics (builder.enter
            (builder.freshHead settings tag (distinctAttributes tag [] attributes).1 span)).1 ⊆
          builder.diagnostics) :
    Move settings source opens builder
      (builder.opening settings tag
        (builder.freshHead settings tag (distinctAttributes tag [] attributes).1 span))
  /-- A line break that was never opened. -/
  | lineBreak (builder : Builder) (span : Span) :
    Move settings source opens builder
      (({ builder with nextId := builder.nextId + 1 } : Builder).close settings
        ⟨Head.new builder.nextId "br" [] span, [], []⟩)
  | close {builder : Builder} {element : Element} {outer : List Element}
      (given : builder.opened = element :: outer) (span : Span) :
    Move settings source opens builder
      (({ builder with opened := outer } : Builder).close settings
        { element with head := { element.head with span } })

def Moves (settings : Settings) (source : String) (opens : String → Prop) :
    Builder → Builder → Prop :=
  Relation.ReflTransGen (Move settings source opens)

/-! ## Tokens take moves -/

section Tokens

variable {settings : Settings} {source : String} {opens : String → Prop}

theorem Moves.keep {before after : Builder} (moves : Moves settings source opens before after)
    (holds : Builder → Prop)
    (move : ∀ first second, Move settings source opens first second → holds first → holds second)
    (start : holds before) : holds after := by
  induction moves with
  | refl => exact start
  | tail _ last ih => exact move _ _ last ih

theorem closeUnmatched_moves (builder : Builder) :
    Moves settings source opens builder (builder.closeUnmatched settings) := by
  unfold closeUnmatched
  split
  · exact .refl
  · next element outer given =>
    let reported := builder.report [.errorAt element.head.span (.unclosedTag element.head.tag)]
    have innermost : reported.opened = element :: outer := given
    exact (Relation.ReflTransGen.single (.report builder _)).tail
      (Move.close innermost element.head.span)

theorem closeAllUnmatched_moves (count : Nat) (builder : Builder) :
    Moves settings source opens builder (builder.closeAllUnmatched settings count) := by
  induction count generalizing builder with
  | zero => exact .refl
  | succ count ih => exact (closeUnmatched_moves builder).trans (ih _)

theorem closeMatched_moves (stop : Nat) (builder : Builder) :
    Moves settings source opens builder (builder.closeMatched settings stop) := by
  unfold closeMatched
  split
  · exact .refl
  · next given => exact .single (.close given _)

theorem closeThrough_moves (tag : String) (span : Span) (builder : Builder) :
    Moves settings source opens builder (builder.closeThrough settings tag span) := by
  unfold closeThrough
  split
  · exact .refl
  · exact (closeAllUnmatched_moves _ builder).trans (closeMatched_moves _ _)

theorem closeBefore_moves (tag : String) (span : Span) (builder : Builder) :
    Moves settings source opens builder (builder.closeBefore settings tag span) := by
  have outside : Moves settings source opens builder
      (if (builder.opened.head?.any fun element => element.head.tag == "p") &&
          settings.platform.isNonPhrasing tag then
        builder.closeThrough settings "p" ⟨span.start, span.start⟩ else builder) := by
    split
    · exact closeThrough_moves _ _ _
    · exact .refl
  unfold closeBefore
  simp only
  generalize (if (builder.opened.head?.any fun element => element.head.tag == "p") &&
    settings.platform.isNonPhrasing tag then
      builder.closeThrough settings "p" ⟨span.start, span.start⟩ else builder) = before at outside ⊢
  split
  · exact outside.trans (closeThrough_moves _ _ _)
  · exact outside

theorem startTag_moves {tag : String} (named : IsTagName tag) (allowed : opens tag)
    (attributes : List SourceAttribute) (selfClosing : Bool) (span : Span) (builder : Builder) :
    Moves settings source opens builder
      (builder.startTag settings tag attributes selfClosing span) := by
  have before := @closeBefore_moves settings source opens tag span builder
  unfold startTag
  simp only
  generalize builder.closeBefore settings tag span = outside at before ⊢
  refine before.trans ?_
  generalize rooted : (if outside.opened.isEmpty && outside.root.isNone then rootDiagnostics _ else []) =
    unfit
  generalize (distinctAttributes tag [] attributes).2 ++ _ ++ _ = others
  have opened : Moves settings source opens outside
      ((outside.report (others ++ unfit)).opening settings tag
        (outside.freshHead settings tag (distinctAttributes tag [] attributes).1 span)) := by
    refine (Relation.ReflTransGen.single (.report outside (others ++ unfit))).tail
      (.enter (outside.report (others ++ unfit)) named allowed attributes span
        fun outermost first => ?_)
    have alone : (outside.opened.isEmpty && outside.root.isNone) = true := by
      rw [show outside.opened = [] from outermost, show outside.root = none from first]
      rfl
    rw [if_pos alone] at rooted
    rw [← rooted]
    exact fun diagnostic held => List.mem_append_right _ (List.mem_append_right _ held)
  split
  · exact opened.tail (.close rfl _)
  · exact opened

theorem endTag_moves (tag : String) (allowed : sameIgnoringAsciiCase tag "p" = true → opens "p")
    (span : Span) (builder : Builder) :
    Moves settings source opens builder (builder.endTag settings tag span) := by
  unfold endTag
  split
  · exact closeThrough_moves _ _ _
  · split
    · exact .single (.lineBreak builder span)
    · split
      · next paragraph =>
        exact (startTag_moves (by decide) (allowed paragraph) [] false span builder).trans
          (closeThrough_moves _ _ _)
      · exact .single (.report builder _)

theorem token_moves {token : Token} (named : token.IsNamed)
    (allowed : ∀ tag ∈ token.opened?, opens tag) (builder : Builder) :
    Moves settings source opens builder (builder.token settings source token) := by
  cases token with
  | startTag name attributes selfClosing span =>
    exact startTag_moves named (allowed name rfl) _ _ _ _
  | endTag name span =>
    refine endTag_moves _ (fun paragraph => allowed "p" ?_) _ _
    rw [Token.opened?, if_pos paragraph, Option.mem_def]
  | text content span => exact .single (.text _ _ _)
  | comment content span => exact .single (.comment _ _ _)
  | malformed content span =>
    exact (Relation.ReflTransGen.single (.report builder _)).tail (.text _ _ _)

theorem tokens_moves {tokens : List Token} (named : ∀ token ∈ tokens, token.IsNamed)
    (allowed : ∀ token ∈ tokens, ∀ tag ∈ token.opened?, opens tag) (builder : Builder) :
    Moves settings source opens builder (tokens.foldl (Builder.token settings source) builder) := by
  induction tokens generalizing builder with
  | nil => exact .refl
  | cons first others ih =>
    have here : Moves settings source opens builder (builder.token settings source first) :=
      token_moves (named first List.mem_cons_self) (allowed first List.mem_cons_self) builder
    exact here.trans
      (ih (fun other held => named other (List.mem_cons_of_mem _ held))
        (fun other held => allowed other (List.mem_cons_of_mem _ held)) _)

end Tokens

/-! ## What becomes of texts -/

def writtenText (settings : Settings) (parent : Element) (isPreformatted : Bool) (raw : String) :
    String :=
  let plain := textContent settings parent isPreformatted raw
  if !isPreformatted && settings.whitespace == .condense then
    String.ofList (condense false plain.toList)
  else plain

/-- The segments of a text: in a verbatim region there are none. -/
def writtenSegments (settings : Settings) (isVerbatim : Bool) (content : String) : List Segment :=
  if isVerbatim || content == " " then []
  else (interpolations? settings.delimiters content).getD []

def addedText (settings : Settings) (raw : String) (span : Span) (builder : Builder)
    (parent : Element) : TextRun :=
  let content := writtenText settings parent builder.isPreformatted raw
  ⟨builder.nextId, content, writtenSegments settings builder.isVerbatim content, span⟩

/-- The text adds nothing to an element: nothing is written, or a single space behind another. -/
def LeavesOut (settings : Settings) (raw : String) (builder : Builder) (parent : Element) : Prop :=
  writtenText settings parent builder.isPreformatted raw = "" ∨
    writtenText settings parent builder.isPreformatted raw = " " ∧
      parent.children.getLast?.any Node.isBlankSpace = true

inductive ReadsText (settings : Settings) (raw : String) (span : Span) (builder : Builder) :
    Builder → Prop where
  | leftOut (diagnostics : List Diagnostic)
      (leaves : ∀ parent ∈ builder.opened.head?, LeavesOut settings raw builder parent) :
    ReadsText settings raw span builder
      (({ builder with nextId := builder.nextId + 1 } : Builder).report diagnostics)
  | added (diagnostics : List Diagnostic) {parent : Element} {outer : List Element}
      (given : builder.opened = parent :: outer)
      (stays : ¬ LeavesOut settings raw builder parent) :
    ReadsText settings raw span builder
      { builder.report diagnostics with
        nextId := builder.nextId + 1
        opened := parent.addChild (.text (addedText settings raw span builder parent)) :: outer }

section ReadsText

variable {settings : Settings} {raw : String} {span : Span} {builder : Builder}

theorem ReadsText.silent
    (leaves : ∀ parent ∈ builder.opened.head?, LeavesOut settings raw builder parent) :
    ReadsText settings raw span builder { builder with nextId := builder.nextId + 1 } := by
  have silent : ({ builder with nextId := builder.nextId + 1 } : Builder).report [] =
      { builder with nextId := builder.nextId + 1 } := by simp [report]
  rw [← silent]
  exact .leftOut [] leaves

theorem outerText_reads (source : String) (none : builder.opened = []) :
    ReadsText settings raw span builder
      (outerText source raw span { builder with nextId := builder.nextId + 1 }) := by
  have leaves : ∀ parent ∈ builder.opened.head?, LeavesOut settings raw builder parent := by
    intro parent held
    simp [none] at held
  unfold outerText
  split
  · exact .leftOut _ leaves
  · split
    · exact .silent leaves
    · exact .leftOut _ leaves

theorem innerText_reads {parent : Element} {outer : List Element}
    (given : builder.opened = parent :: outer) :
    ReadsText settings raw span builder
      (innerText settings parent raw span builder.nextId
        { builder with nextId := builder.nextId + 1 }) := by
  have inside (leaves : LeavesOut settings raw builder parent) :
      ∀ other ∈ builder.opened.head?, LeavesOut settings raw builder other := by
    intro other held
    rw [given] at held
    cases held
    exact leaves
  unfold innerText
  simp only
  generalize content : (if !builder.isPreformatted && settings.whitespace == .condense then
    String.ofList (condense false (textContent settings parent builder.isPreformatted raw).toList)
    else textContent settings parent builder.isPreformatted raw) = written
  obtain rfl : writtenText settings parent builder.isPreformatted raw = written := content
  split
  · next nothing => exact .silent (inside (.inl (eq_of_beq nothing)))
  · next something =>
    split
    · next single =>
      obtain ⟨space, behind⟩ := Bool.and_eq_true_iff.mp single
      exact .leftOut _ (inside (.inr ⟨eq_of_beq space, behind⟩))
    · next apart =>
      simp only [updateParent, report, given]
      refine .added _ given ?_
      rintro (nothing | ⟨space, behind⟩)
      · exact something (beq_iff_eq.mpr nothing)
      · exact apart (Bool.and_eq_true_iff.mpr ⟨beq_iff_eq.mpr space, behind⟩)

end ReadsText

theorem text_reads (settings : Settings) (source raw : String) (span : Span) (builder : Builder) :
    ReadsText settings raw span builder (builder.text settings source raw span) := by
  unfold text
  simp only
  split
  · next none => exact outerText_reads source none
  · next parent outer given => exact innerText_reads given

/-! ## Moves are steps -/

section Steps

variable {settings : Settings} {source : String} {opens : String → Prop} {before after : Builder}

theorem Steps.keep (steps : Steps settings before after) (holds : Builder → Prop)
    (step : ∀ first second, Step settings first second → holds first → holds second)
    (start : holds before) : holds after := by
  induction steps with
  | refl => exact start
  | tail _ last ih => exact step _ _ last ih

theorem text_steps (source raw : String) (span : Span) (builder : Builder) :
    Steps settings builder (builder.text settings source raw span) := by
  have reads := text_reads settings source raw span builder
  generalize builder.text settings source raw span = after at reads ⊢
  cases reads with
  | leftOut diagnostics leaves =>
    exact (Relation.ReflTransGen.single (.spend builder)).tail (.report _ diagnostics)
  | added diagnostics given stays =>
    refine (Relation.ReflTransGen.single (.report builder diagnostics)).tail
      (.text (by exact given) _ _ span fun verbatim => ?_)
    have same : builder.isVerbatim = true := verbatim
    rw [writtenSegments, same, Bool.true_or, if_pos rfl]

theorem comment_steps (content : String) (span : Span) (builder : Builder) :
    Steps settings builder (builder.comment settings content span) := by
  unfold comment
  split
  · unfold updateParent
    split
    · exact .single (.spend builder)
    · next parent outer given =>
      have innermost : builder.opened = parent :: outer := given
      exact .single (.comment innermost content span)
  · exact .refl

theorem Move.steps (move : Move settings source opens before after) :
    Steps settings before after := by
  cases move with
  | report diagnostics => exact .single (.report _ _)
  | text raw span => exact text_steps _ _ _ _
  | comment content span => exact comment_steps _ _ _
  | enter named allowed attributes span reported => exact .single (.enter _ named _ _ reported)
  | lineBreak span => exact .single (.lineBreak _ _)
  | close given span => exact .single (.close given _)

theorem Moves.steps (moves : Moves settings source opens before after) :
    Steps settings before after :=
  moves.keep (Steps settings before) (fun _ _ move steps => steps.trans move.steps) .refl

end Steps

/-! ## Steps keep what is formed -/

section Formed

variable {settings : Settings} {before after : Builder}

theorem lineBreak_stack (formed : before.Formed) (span : Span) :
    Stack before.verbatimRoot (⟨Head.new before.nextId "br" [] span, [], []⟩ :: before.opened) := by
  have named : IsTagName "br" := by decide
  have names : (([] : List SourceAttribute).map SourceAttribute.name).Nodup := List.nodup_nil
  have stems := Provenance.new before.nextId "br" span names
  obtain ⟨⟨stack, -⟩, bound⟩ := formed
  generalize before.verbatimRoot = mode at stack bound
  cases mode with
  | none =>
    cases stack with
    | plain all =>
      refine .plain fun element held => ?_
      rcases List.mem_cons.mp held with rfl | held
      · refine ⟨rfl, (formedElement_plain _ rfl).mpr ⟨named, ?_, trivial, trivial⟩⟩
        exact { stems with noLoop := fun _ held => by cases held }
      · exact all element held
  | some id =>
    have less := bound id rfl
    refine .inner _ ?_ ⟨new_isRaw _ _ _ _, named, trivial, rfl⟩ stack
    simp only [Head.new]
    omega

theorem opening_stack (formed : before.Formed) {tag : String} (named : IsTagName tag)
    (attributes : List SourceAttribute) (span : Span) :
    let fresh := before.freshHead settings tag (distinctAttributes tag [] attributes).1 span
    Stack (before.enter fresh).2.1 (⟨(before.enter fresh).1, [], []⟩ :: before.opened) ∧
      ∀ id ∈ (before.enter fresh).2.1, id < before.nextId + 1 := by
  have names := (distinctAttributes_nodup tag [] attributes).1
  have stems := Provenance.new before.nextId tag span names
  have raw := new_isRaw before.nextId tag (distinctAttributes tag [] attributes).1 span
  exact enter_stack formed _ named { stems with } { raw with } rfl rfl

theorem Formed.step (faithful : ∀ extension ∈ settings.extensions, extension.IsFaithful)
    (formed : before.Formed) (step : Step settings before after) : after.Formed := by
  cases step with
  | report diagnostics => exact formed.report _
  | spend => exact formed.withNextId
  | text given content segments span plain =>
    have added := formed.withNextId.updateParent (.text ⟨before.nextId, content, segments, span⟩)
      trivial plain
    simpa only [Builder.updateParent, given] using added
  | comment given content span =>
    have added := formed.withNextId.updateParent (.comment ⟨before.nextId, content, span⟩) trivial
      fun _ => trivial
    simpa only [Builder.updateParent, given] using added
  | enter named attributes span reported =>
    obtain ⟨stack, bound⟩ := @opening_stack settings before formed _ named attributes span
    exact ⟨⟨stack, formed.shape.root⟩, bound⟩
  | lineBreak span =>
    exact close_formed faithful (lineBreak_stack formed span) formed.shape.root formed.withNextId.bound
  | close given span =>
    have stack := formed.shape.stack
    rw [given] at stack
    exact close_formed faithful (stack.withSpan span) formed.shape.root formed.bound

end Formed

end Builder

/-- A document is read in moves. -/
theorem parse_moves {settings : Settings} {source : String} {opens : String → Prop}
    (allowed : ∀ token ∈ scan source, ∀ tag ∈ token.opened?, opens tag) :
    ∃ final : Builder, Builder.Moves settings source opens .initial final ∧
      Document.parse settings source = (⟨final.root, final.nextId⟩, final.diagnostics) := by
  refine ⟨_, (Builder.tokens_moves (scan_isNamed source) allowed .initial).trans ?_, rfl⟩
  exact Builder.closeAllUnmatched_moves _ _

theorem parse_steps (settings : Settings) (source : String) :
    ∃ final : Builder, Builder.Steps settings .initial final ∧
      Document.parse settings source = (⟨final.root, final.nextId⟩, final.diagnostics) := by
  obtain ⟨final, moves, same⟩ :=
    @parse_moves settings source (fun _ => True) fun _ _ _ _ => trivial
  exact ⟨final, moves.steps, same⟩

end Templating.Template
