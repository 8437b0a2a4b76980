import Templating.Proofs.Markup.Tiling
import Templating.Proofs.Template.HeadSpans
import Templating.Proofs.Template.Steps
/-!
# The course of reading

Reading goes through the source from left to right.  Elements open and close one at a
time; in between, only texts and comments are added, numbers spent and problems
reported.  What is added has a place of its own in the source, behind all that has
been read before.

`history` lists the states behind each opening and each closing.
-/
set_option autoImplicit false

namespace Templating.Template

open Templating.Text Templating.Data Templating.Markup

/-- The diagnostics point into the source, or nowhere. -/
def PointInto (source : String) (diagnostics : List Diagnostic) : Prop :=
  ∀ diagnostic ∈ diagnostics, diagnostic.PointsInto (Span.IsWithin source)

theorem unterminatedFrom_boundary {opening closing : List Char} {fuel offset start : Nat}
    {content : List Char}
    (found : unterminatedFrom opening closing fuel offset content = some start) :
    ∃ before behind, content = before ++ behind ∧ start = offset + byteLength before := by
  induction fuel generalizing offset content with
  | zero => cases found
  | succ fuel ih =>
    unfold unterminatedFrom at found
    split at found
    · cases found
    · next before inside opens =>
      have split := breakAt_eq_some opens
      simp only at found
      split at found
      · cases found
        exact ⟨before, opening ++ inside, by rw [split, List.append_assoc], rfl⟩
      · next expression after closes =>
        obtain ⟨more, behind, rest, same⟩ := ih found
        refine ⟨before ++ opening ++ expression ++ closing ++ more, behind, ?_, ?_⟩
        · rw [split, breakAt_eq_some closes, rest]
          simp only [List.append_assoc]
        · rw [same]
          simp only [byteLength_append]
          omega

namespace Builder

structure Moment where
  position : Nat
  builder : Builder

def Points (source : String) (builder : Builder) : Prop :=
  ∀ element ∈ builder.opened, element.head.span.IsWithin source

/-- A part of the source that is read at a moment: it is not empty, and stands behind
what has been read. -/
structure Ahead (source : String) (position : Nat) (span : Span) : Prop where
  behind : position ≤ span.start
  nonempty : span.start < span.stop
  within : span.IsWithin source

/-- What happens while no element opens or closes. -/
inductive Quiet (source : String) : Moment → Moment → Prop where
  | pass (builder : Builder) {position next : Nat} (forward : position ≤ next)
      (boundary : IsBoundary source position → IsBoundary source next) :
    Quiet source ⟨position, builder⟩ ⟨next, builder⟩
  | report (position : Nat) (builder : Builder) {diagnostics : List Diagnostic}
      (points : builder.Points source → PointInto source diagnostics) :
    Quiet source ⟨position, builder⟩ ⟨position, builder.report diagnostics⟩
  | spend (position : Nat) (builder : Builder) :
    Quiet source ⟨position, builder⟩ ⟨position, { builder with nextId := builder.nextId + 1 }⟩
  | text {builder : Builder} {parent : Element} {outer : List Element}
      (given : builder.opened = parent :: outer) {position : Nat} (content : String)
      (segments : List Segment) {span : Span} (ahead : Ahead source position span)
      (plain : builder.isVerbatim = true → segments = []) :
    Quiet source ⟨position, builder⟩
      ⟨span.stop, { builder with
        nextId := builder.nextId + 1
        opened := parent.addChild (.text ⟨builder.nextId, content, segments, span⟩) :: outer }⟩
  | comment {builder : Builder} {parent : Element} {outer : List Element}
      (given : builder.opened = parent :: outer) {position : Nat} (content : String) {span : Span}
      (ahead : Ahead source position span) :
    Quiet source ⟨position, builder⟩
      ⟨span.stop, { builder with
        nextId := builder.nextId + 1
        opened := parent.addChild (.comment ⟨builder.nextId, content, span⟩) :: outer }⟩

/-- An element opens or closes. -/
inductive Turn (settings : Settings) (source : String) : Moment → Moment → Prop where
  | enter (builder : Builder) {position : Nat} {tag : String} (named : IsTagName tag)
      {attributes : List SourceAttribute} {span : Span} (ahead : Ahead source position span)
      (items : ∀ item ∈ attributes, item.span.IsWithin source)
      (forbidden : (builder.freshHead settings tag (distinctAttributes tag [] attributes).1
          span).isForbidden = true →
        Diagnostic.errorAt span (.forbiddenTag tag) ∈ builder.diagnostics)
      (reported : builder.opened = [] → builder.root = none →
        rootDiagnostics (builder.enter
            (builder.freshHead settings tag (distinctAttributes tag [] attributes).1 span)).1 ⊆
          builder.diagnostics) :
    Turn settings source ⟨position, builder⟩
      ⟨span.stop, builder.opening settings tag
        (builder.freshHead settings tag (distinctAttributes tag [] attributes).1 span)⟩
  /-- A line break that was never opened. -/
  | lineBreak (builder : Builder) {position : Nat} {span : Span} (ahead : Ahead source position span) :
    Turn settings source ⟨position, builder⟩
      ⟨span.stop, ({ builder with nextId := builder.nextId + 1 } : Builder).close settings
        ⟨Head.new builder.nextId "br" [] span, [], []⟩⟩
  /-- The element ends with its start tag, or where reading has come to. -/
  | close {builder : Builder} {element : Element} {outer : List Element}
      (given : builder.opened = element :: outer) {position stop : Nat}
      (stops : stop = element.head.span.stop ∨ stop = position) :
    Turn settings source ⟨position, builder⟩
      ⟨position, ({ builder with opened := outer } : Builder).close settings
        { element with head := { element.head with span := ⟨element.head.span.start, stop⟩ } }⟩

/-- From one moment to another, with the states behind each turn on the way. -/
inductive Course (settings : Settings) (source : String) : Moment → List Builder → Moment → Prop where
  | done (moment : Moment) : Course settings source moment [] moment
  | quiet {first second last : Moment} {states : List Builder} (move : Quiet source first second)
      (rest : Course settings source second states last) : Course settings source first states last
  | turn {first second last : Moment} {states : List Builder} (move : Turn settings source first second)
      (rest : Course settings source second states last) :
    Course settings source first (second.builder :: states) last

section Course

variable {settings : Settings} {source : String} {first second last : Moment} {states others : List Builder}

theorem Course.trans (course : Course settings source first states second)
    (further : Course settings source second others last) :
    Course settings source first (states ++ others) last := by
  induction course with
  | done => exact further
  | quiet move _ ih => exact .quiet move (ih further)
  | turn move _ ih => exact .turn move (ih further)

theorem Course.ofQuiet (move : Quiet source first second) : Course settings source first [] second :=
  .quiet move (.done second)

theorem Course.ofTurn (move : Turn settings source first second) :
    Course settings source first [second.builder] second :=
  .turn move (.done second)

theorem Course.split (course : Course settings source first states last) {state : Builder}
    (held : state ∈ states) : ∃ moment before behind, moment.builder = state ∧
      Course settings source first before moment ∧ Course settings source moment behind last ∧
      behind ⊆ states := by
  induction course with
  | done => cases held
  | quiet move _ ih =>
    obtain ⟨moment, before, behind, same, prior, rest, part⟩ := ih held
    exact ⟨moment, before, behind, same, .quiet move prior, rest, part⟩
  | turn move rest ih =>
    rcases List.mem_cons.mp held with rfl | held
    · exact ⟨_, _, _, rfl, .ofTurn move, rest, List.subset_cons_self _ _⟩
    · obtain ⟨moment, before, behind, same, prior, further, part⟩ := ih held
      exact ⟨moment, _, behind, same, .turn move prior, further, List.subset_cons_of_subset _ part⟩

theorem Course.keep (course : Course settings source first states last) (holds : Moment → Prop)
    (quiet : ∀ before after, Quiet source before after → holds before → holds after)
    (turn : ∀ before after, Turn settings source before after → holds before → holds after)
    (start : holds first) : holds last := by
  induction course with
  | done => exact start
  | quiet move _ ih => exact ih (quiet _ _ move start)
  | turn move _ ih => exact ih (turn _ _ move start)

end Course

/-! ## States on the way -/

section History

variable (settings : Settings)

def closings : Nat → Builder → List Builder
  | 0, _ => []
  | count + 1, builder =>
    builder.closeUnmatched settings :: closings count (builder.closeUnmatched settings)

def closingsThrough (tag : String) (span : Span) (builder : Builder) : List Builder :=
  match builder.depthOf? tag with
  | none => []
  | some depth => closings settings depth builder ++ [builder.closeThrough settings tag span]

def outsideParagraph (tag : String) (span : Span) (builder : Builder) : Builder :=
  if builder.opened.head?.any (fun element => element.head.tag == "p") &&
      settings.platform.isNonPhrasing tag then
    builder.closeThrough settings "p" ⟨span.start, span.start⟩
  else builder

def closingsBefore (tag : String) (span : Span) (builder : Builder) : List Builder :=
  let here : Span := ⟨span.start, span.start⟩
  let outside := builder.outsideParagraph settings tag span
  (if builder.opened.head?.any (fun element => element.head.tag == "p") &&
        settings.platform.isNonPhrasing tag then
      builder.closingsThrough settings "p" here
    else []) ++
    if settings.platform.mayStayOpen tag &&
        outside.opened.head?.any (fun element => element.head.tag == tag) then
      outside.closingsThrough settings tag here
    else []

def startDiagnostics (tag : String) (attributes : List SourceAttribute) (span : Span)
    (outside : Builder) : List Diagnostic :=
  let distinct := distinctAttributes tag [] attributes
  let fresh := outside.freshHead settings tag distinct.1 span
  let entered := outside.enter fresh
  distinct.2 ++ (if fresh.isForbidden then [.errorAt span (.forbiddenTag tag)] else []) ++
    entered.2.2 ++
    if outside.opened.isEmpty && outside.root.isNone then rootDiagnostics entered.1 else []

/-- The state behind a start tag, whether or not the element closes at once. -/
def behindStart (tag : String) (attributes : List SourceAttribute) (span : Span) (builder : Builder) :
    Builder :=
  let outside := builder.closeBefore settings tag span
  (outside.report (outside.startDiagnostics settings tag attributes span)).opening settings tag
    (outside.freshHead settings tag (distinctAttributes tag [] attributes).1 span)

def startStates (tag : String) (attributes : List SourceAttribute) (selfClosing : Bool) (span : Span)
    (builder : Builder) : List Builder :=
  builder.closingsBefore settings tag span ++ builder.behindStart settings tag attributes span ::
    if settings.platform.isUnary tag || selfClosing then
      [builder.startTag settings tag attributes selfClosing span]
    else []

def endStates (tag : String) (span : Span) (builder : Builder) : List Builder :=
  if (builder.depthOf? tag).isSome then builder.closingsThrough settings tag span
  else if sameIgnoringAsciiCase tag "br" then [builder.endTag settings tag span]
  else if sameIgnoringAsciiCase tag "p" then
    builder.startStates settings "p" [] false span ++
      (builder.startTag settings "p" [] false span).closingsThrough settings "p" span
  else []

def tokenStates (builder : Builder) : Token → List Builder
  | .startTag name attributes selfClosing span =>
    builder.startStates settings name attributes selfClosing span
  | .endTag name span => builder.endStates settings name span
  | _ => []

def tokensStates (source : String) : List Token → Builder → List Builder
  | [], _ => []
  | token :: rest, builder =>
    builder.tokenStates settings token ++
      tokensStates source rest (builder.token settings source token)

end History

/-- The states of reading a template behind each opening and each closing. -/
def history (settings : Settings) (source : String) : List Builder :=
  let read := (scan source).foldl (Builder.token settings source) .initial
  tokensStates settings source (scan source) .initial ++ closings settings read.opened.length read

/-! ## Closing -/

theorem place_opened_length (builder : Builder) (element : Element) :
    (builder.place element).opened.length = builder.opened.length := by
  unfold place
  split
  · next given =>
    split
    · rfl
    · rw [given]
      split <;> rfl
  · split
    · rfl
    · split <;> rfl

theorem close_opened_length (settings : Settings) (builder : Builder) (element : Element) :
    (builder.close settings element).opened.length = builder.opened.length := by
  unfold close
  exact place_opened_length _ _

theorem closeUnmatched_opened_length (settings : Settings) {builder : Builder}
    (nonempty : builder.opened ≠ []) :
    (builder.closeUnmatched settings).opened.length + 1 = builder.opened.length := by
  unfold closeUnmatched
  split
  · next none => exact absurd none nonempty
  · next given =>
    rw [close_opened_length]
    exact congrArg List.length given.symm

theorem closeAllUnmatched_opened_length (settings : Settings) (count : Nat) (builder : Builder)
    (enough : count ≤ builder.opened.length) :
    (builder.closeAllUnmatched settings count).opened.length + count = builder.opened.length := by
  induction count generalizing builder with
  | zero => rfl
  | succ count ih =>
    have shorter := closeUnmatched_opened_length settings
      (List.ne_nil_of_length_pos (show 0 < builder.opened.length by omega))
    have left := ih (builder.closeUnmatched settings) (by omega)
    rw [closeAllUnmatched]
    omega

section Tokens

variable {settings : Settings} {source : String}

theorem closings_course (count : Nat) (builder : Builder) (enough : count ≤ builder.opened.length)
    (position : Nat) :
    Course settings source ⟨position, builder⟩ (closings settings count builder)
      ⟨position, builder.closeAllUnmatched settings count⟩ := by
  induction count generalizing builder with
  | zero => exact .done _
  | succ count ih =>
    have nonempty : builder.opened ≠ [] := List.ne_nil_of_length_pos (by omega)
    have shorter := closeUnmatched_opened_length settings nonempty
    have further := ih (builder.closeUnmatched settings) (by omega)
    obtain ⟨element, outer, given⟩ := List.exists_cons_of_ne_nil nonempty
    let reported := builder.report [.errorAt element.head.span (.unclosedTag element.head.tag)]
    have innermost : reported.opened = element :: outer := given
    have report : Quiet source ⟨position, builder⟩ ⟨position, reported⟩ :=
      .report position builder fun points => List.forall_mem_singleton.mpr
        (errorAt_pointsInto (points element (given ▸ List.mem_cons_self)) _)
    have turn : Turn settings source ⟨position, reported⟩
        ⟨position, builder.closeUnmatched settings⟩ := by
      unfold closeUnmatched
      rw [given]
      exact .close innermost (.inl rfl)
    exact .quiet report (.turn turn further)

theorem closingsThrough_course (tag : String) (span : Span) (builder : Builder) :
    Course settings source ⟨span.stop, builder⟩ (builder.closingsThrough settings tag span)
      ⟨span.stop, builder.closeThrough settings tag span⟩ := by
  unfold closingsThrough closeThrough
  cases found : builder.depthOf? tag with
  | none => exact .done _
  | some depth =>
    obtain ⟨less, -⟩ := List.findIdx?_eq_some_iff_getElem.mp found
    have left := closeAllUnmatched_opened_length settings depth builder (Nat.le_of_lt less)
    simp only
    refine (closings_course depth builder (Nat.le_of_lt less) span.stop).trans ?_
    generalize builder.closeAllUnmatched settings depth = inner at left ⊢
    obtain ⟨element, outer, given⟩ := List.exists_cons_of_ne_nil
      (List.ne_nil_of_length_pos (show 0 < inner.opened.length by omega))
    unfold closeMatched
    rw [given]
    exact .ofTurn (.close given (.inr rfl))

theorem closingsBefore_course (tag : String) (span : Span) (builder : Builder) :
    Course settings source ⟨span.start, builder⟩ (builder.closingsBefore settings tag span)
      ⟨span.start, builder.closeBefore settings tag span⟩ := by
  have paragraph : Course settings source ⟨span.start, builder⟩
      (if builder.opened.head?.any (fun element => element.head.tag == "p") &&
          settings.platform.isNonPhrasing tag then
        builder.closingsThrough settings "p" ⟨span.start, span.start⟩ else [])
      ⟨span.start, builder.outsideParagraph settings tag span⟩ := by
    unfold outsideParagraph
    split
    · exact closingsThrough_course "p" ⟨span.start, span.start⟩ builder
    · exact .done _
  refine paragraph.trans ?_
  change Course settings source _ _ ⟨span.start,
    if settings.platform.mayStayOpen tag &&
        (builder.outsideParagraph settings tag span).opened.head?.any (fun element =>
          element.head.tag == tag) then
      (builder.outsideParagraph settings tag span).closeThrough settings tag ⟨span.start, span.start⟩
    else builder.outsideParagraph settings tag span⟩
  split
  · exact closingsThrough_course tag ⟨span.start, span.start⟩ _
  · exact .done _

/-! ## Tokens -/

theorem startDiagnostics_point {tag : String} {attributes : List SourceAttribute} {span : Span}
    (within : span.IsWithin source) (items : ∀ item ∈ attributes, item.span.IsWithin source)
    (outside : Builder) : PointInto source (outside.startDiagnostics settings tag attributes span) := by
  obtain ⟨kept, duplicates⟩ := distinctAttributes_spansIn tag [] items
  have fresh := freshHead_spansIn within kept settings tag outside
  obtain ⟨entered, structural⟩ := enter_spansIn outside fresh
  unfold PointInto startDiagnostics
  simp only [List.forall_mem_append]
  refine ⟨⟨⟨duplicates, ?_⟩, structural⟩, ?_⟩
  · split
    · exact List.forall_mem_singleton.mpr (errorAt_pointsInto within _)
    · exact List.forall_mem_nil _
  · split
    · exact rootDiagnostics_pointInto (by rw [entered.own]; exact within)
    · exact List.forall_mem_nil _

theorem startStates_course {tag : String} (named : IsTagName tag) {attributes : List SourceAttribute}
    (selfClosing : Bool) {span : Span} (ahead : Ahead source span.start span)
    (items : ∀ item ∈ attributes, item.span.IsWithin source) (builder : Builder) :
    Course settings source ⟨span.start, builder⟩
      (builder.startStates settings tag attributes selfClosing span)
      ⟨span.stop, builder.startTag settings tag attributes selfClosing span⟩ := by
  refine (closingsBefore_course tag span builder).trans ?_
  have reported : Quiet source ⟨span.start, builder.closeBefore settings tag span⟩
      ⟨span.start, (builder.closeBefore settings tag span).report
        ((builder.closeBefore settings tag span).startDiagnostics settings tag attributes span)⟩ :=
    .report _ _ fun _ => startDiagnostics_point ahead.within items _
  have entered : Turn settings source
      ⟨span.start, (builder.closeBefore settings tag span).report
        ((builder.closeBefore settings tag span).startDiagnostics settings tag attributes span)⟩
      ⟨span.stop, builder.behindStart settings tag attributes span⟩ := by
    refine .enter _ named ahead items (fun forbidden => ?_) fun outermost first => ?_
    · refine List.mem_append_right _ ?_
      have same : ((builder.closeBefore settings tag span).freshHead settings tag
          (distinctAttributes tag [] attributes).1 span).isForbidden = true := forbidden
      unfold startDiagnostics
      simp only [same, if_true, List.mem_append, List.mem_singleton, true_or, or_true]
    have alone : ((builder.closeBefore settings tag span).opened.isEmpty &&
        (builder.closeBefore settings tag span).root.isNone) = true := by
      rw [show (builder.closeBefore settings tag span).opened = [] from outermost,
        show (builder.closeBefore settings tag span).root = none from first]
      rfl
    unfold startDiagnostics
    simp only [alone, if_true]
    exact fun diagnostic held => List.mem_append_right _ (List.mem_append_right _ held)
  refine .quiet reported (.turn entered ?_)
  unfold startTag
  simp only
  split
  · exact .ofTurn (.close rfl (.inl rfl))
  · exact .done _

theorem endStates_course (tag : String) {span : Span} (ahead : Ahead source span.start span)
    (builder : Builder) :
    Course settings source ⟨span.start, builder⟩ (builder.endStates settings tag span)
      ⟨span.stop, builder.endTag settings tag span⟩ := by
  have passed (builder : Builder) : Quiet source ⟨span.start, builder⟩ ⟨span.stop, builder⟩ :=
    .pass builder ahead.within.ordered fun _ => ahead.within.stop
  unfold endStates endTag
  split
  · exact .quiet (passed builder) (closingsThrough_course tag span builder)
  · split
    · exact .ofTurn (.lineBreak builder ahead)
    · split
      · exact (startStates_course (by decide) false ahead (List.forall_mem_nil _)
          builder).trans (closingsThrough_course "p" span _)
      · exact .quiet (passed builder) (.ofQuiet (.report _ _ fun _ =>
          List.forall_mem_singleton.mpr (errorAt_pointsInto ahead.within _)))

theorem unterminated_within {delimiters : Delimiters} {raw : String} {front behind : List Char}
    {offset : Nat} (split : source.toList = front ++ raw.toList ++ behind)
    (found : unterminated? delimiters raw = some offset) :
    Span.IsWithin source ⟨byteLength front + offset, byteLength front + byteLength raw.toList⟩ := by
  unfold unterminated? at found
  split at found
  · obtain ⟨before, rest, inside, same⟩ := unterminatedFrom_boundary found
    rw [Nat.zero_add] at same
    have whole : source.toList = front ++ before ++ rest ++ behind := by
      rw [split, inside]
      simp only [List.append_assoc]
    rw [inside, same]
    simpa only [byteLength_append, Nat.add_assoc] using Span.isWithin_of_append whole
  · cases found

theorem unterminated_pointInto {raw : String} {front behind : List Char}
    (split : source.toList = front ++ raw.toList ++ behind) (delimiters : Delimiters)
    (isVerbatim : Bool) :
    PointInto source (if isVerbatim then [] else
      match unterminated? delimiters raw with
      | some offset =>
        [.errorAt ⟨byteLength front + offset, byteLength front + byteLength raw.toList⟩
          (.unterminatedInterpolation delimiters.closing)]
      | none => []) := by
  split
  · exact List.forall_mem_nil _
  · split
    · next offset found =>
      exact List.forall_mem_singleton.mpr (errorAt_pointsInto (unterminated_within split found) _)
    · exact List.forall_mem_nil _

theorem innerText_course {raw : String} {front behind : List Char}
    (split : source.toList = front ++ raw.toList ++ behind) (nonempty : raw.toList ≠ [])
    {builder : Builder} {parent : Element} {outer : List Element}
    (given : builder.opened = parent :: outer) :
    Course settings source ⟨byteLength front, builder⟩ []
      ⟨byteLength front + byteLength raw.toList,
        { builder with nextId := builder.nextId + 1 }.innerText settings parent raw
          ⟨byteLength front, byteLength front + byteLength raw.toList⟩ builder.nextId⟩ := by
  have within := Span.isWithin_of_append split
  have ahead : Ahead source (byteLength front)
      ⟨byteLength front, byteLength front + byteLength raw.toList⟩ :=
    ⟨Nat.le_refl _, Nat.lt_add_of_pos_right (byteLength_pos nonempty), within⟩
  have spend (builder : Builder) : Course settings source ⟨byteLength front, builder⟩ []
      ⟨byteLength front + byteLength raw.toList, { builder with nextId := builder.nextId + 1 }⟩ :=
    .quiet (.spend _ builder) (.ofQuiet (.pass _ (Nat.le_add_right _ _) fun _ => within.stop))
  have added {diagnostics : List Diagnostic} (points : PointInto source diagnostics)
      (content : String) (segments : List Segment) (plain : builder.isVerbatim = true → segments = []) :
      Course settings source ⟨byteLength front, builder⟩ []
        ⟨byteLength front + byteLength raw.toList, { builder.report diagnostics with
          nextId := builder.nextId + 1
          opened := parent.addChild (.text ⟨builder.nextId, content, segments,
            ⟨byteLength front, byteLength front + byteLength raw.toList⟩⟩) :: outer }⟩ := by
    have innermost : (builder.report diagnostics).opened = parent :: outer := given
    exact .quiet (.report _ builder fun _ => points) (.ofQuiet (.text innermost content segments ahead plain))
  have reported := unterminated_pointInto split settings.delimiters builder.isVerbatim
  unfold innerText
  simp only
  generalize (if !isPreformatted _ && settings.whitespace == .condense then _ else _ : String) = content
  split
  · exact spend builder
  · split
    · exact .quiet (.report _ builder fun _ => reported) (spend _)
    · unfold updateParent
      simp only [report, given]
      refine added reported content _ fun verbatim => ?_
      have same : builder.verbatimRoot.isSome = true := verbatim
      simp [isVerbatim, same]

theorem text_course {raw : String} {front behind : List Char}
    (split : source.toList = front ++ raw.toList ++ behind) (nonempty : raw.toList ≠ [])
    (builder : Builder) :
    Course settings source ⟨byteLength front, builder⟩ []
      ⟨byteLength front + byteLength raw.toList, builder.text settings source raw
        ⟨byteLength front, byteLength front + byteLength raw.toList⟩⟩ := by
  have within := Span.isWithin_of_append split
  have spend : Course settings source ⟨byteLength front, builder⟩ []
      ⟨byteLength front + byteLength raw.toList, { builder with nextId := builder.nextId + 1 }⟩ :=
    .quiet (.spend _ builder) (.ofQuiet (.pass _ (Nat.le_add_right _ _) fun _ => within.stop))
  have reporting (builder : Builder) (problem : Problem) :
      Course settings source ⟨byteLength front + byteLength raw.toList, builder⟩ []
        ⟨byteLength front + byteLength raw.toList, builder.report [.errorAt
          ⟨byteLength front, byteLength front + byteLength raw.toList⟩ problem]⟩ :=
    .ofQuiet (.report _ _ fun _ => List.forall_mem_singleton.mpr (errorAt_pointsInto within _))
  unfold text
  simp only
  split
  · unfold outerText
    split
    · exact spend.trans (reporting _ _)
    · split
      · exact spend
      · exact spend.trans (reporting _ _)
  · next given => exact innerText_course split nonempty given

theorem comment_course (content : String) {span : Span} (ahead : Ahead source span.start span)
    (builder : Builder) :
    Course settings source ⟨span.start, builder⟩ []
      ⟨span.stop, builder.comment settings content span⟩ := by
  have pass (builder : Builder) : Quiet source ⟨span.start, builder⟩ ⟨span.stop, builder⟩ :=
    .pass builder ahead.within.ordered fun _ => ahead.within.stop
  unfold comment
  split
  · unfold updateParent
    split
    · exact .quiet (.spend _ builder) (.ofQuiet (pass _))
    · next parent outer given =>
      have innermost : builder.opened = parent :: outer := given
      exact .ofQuiet (.comment innermost content ahead)
  · exact .ofQuiet (pass builder)

theorem attributesStand_within {before rest behind : List Char} {attributes : List SourceAttribute}
    (stand : AttributesStand (byteLength before) rest attributes)
    (split : source.toList = before ++ rest ++ behind) :
    ∀ item ∈ attributes, item.span.IsWithin source := by
  generalize start : byteLength before = offset at stand
  induction stand generalizing before with
  | nil => exact List.forall_mem_nil _
  | @cons offset item others skipped taken rest stands nonempty inner ih =>
    subst start
    have here : source.toList = before ++ skipped ++ taken ++ (rest ++ behind) := by
      rw [split]
      simp only [List.append_assoc]
    have further : source.toList = before ++ (skipped ++ taken) ++ rest ++ behind := by
      rw [split]
      simp only [List.append_assoc]
    refine List.forall_mem_cons.mpr ⟨?_, ih further (byteLength_append ..)⟩
    rw [stands.span, ← byteLength_append]
    exact Span.isWithin_of_append here

theorem token_course {token : Token} (named : token.IsNamed) {front taken behind : List Char}
    (split : source.toList = front ++ taken ++ behind) (nonempty : taken ≠ [])
    (stands : token.StandsAt (byteLength front) taken) (builder : Builder) :
    Course settings source ⟨byteLength front, builder⟩ (builder.tokenStates settings token)
      ⟨byteLength front + byteLength taken, builder.token settings source token⟩ := by
  let span : Span := ⟨byteLength front, byteLength front + byteLength taken⟩
  have ahead : Ahead source span.start span :=
    ⟨Nat.le_refl _, Nat.lt_add_of_pos_right (byteLength_pos nonempty), Span.isWithin_of_append split⟩
  cases token with
  | startTag name attributes selfClosing span =>
    obtain ⟨rfl, parts⟩ := stands
    obtain ⟨inside, rfl, stand⟩ := parts
    rw [← byteLength_append] at stand
    have whole : source.toList = front ++ '<' :: name.toList ++ inside ++ behind := by
      rw [split]
      simp only [List.append_assoc]
    have within := attributesStand_within stand whole
    exact startStates_course named selfClosing ahead within builder
  | endTag name span =>
    obtain ⟨rfl, parts⟩ := stands
    exact endStates_course name ahead builder
  | text content span =>
    obtain ⟨rfl, rfl⟩ := stands
    exact text_course split nonempty builder
  | comment content span =>
    obtain ⟨rfl, parts⟩ := stands
    exact comment_course content ahead builder
  | malformed content span =>
    obtain ⟨rfl, rfl⟩ := stands
    exact .quiet (.report _ builder fun _ => List.forall_mem_singleton.mpr
      (errorAt_pointsInto ahead.within _)) (text_course split nonempty _)

theorem tokens_course {offset : Nat} {rest : List Char} {tokens : List Token}
    (tiled : Tiled offset rest tokens) (named : ∀ token ∈ tokens, token.IsNamed) (before : List Char)
    (split : source.toList = before ++ rest) (start : offset = byteLength before) (builder : Builder) :
    ∃ position, Course settings source ⟨offset, builder⟩ (tokensStates settings source tokens builder)
      ⟨position, tokens.foldl (Builder.token settings source) builder⟩ := by
  induction tiled generalizing before builder with
  | finished offset => exact ⟨offset, .done _⟩
  | @skipped offset declaration rest tokens isDeclaration inner ih =>
    have whole : source.toList = before ++ declaration ++ rest := by rw [split, List.append_assoc]
    have within := Span.isWithin_of_append whole
    rw [← start] at within
    obtain ⟨position, course⟩ := ih named _ whole (by rw [start, byteLength_append]) builder
    exact ⟨position, .quiet (.pass builder (Nat.le_add_right _ _) fun _ => within.stop) course⟩
  | @token offset taken rest token tokens stands nonempty inner ih =>
    obtain ⟨first, others⟩ := List.forall_mem_cons.mp named
    have whole : source.toList = before ++ taken ++ rest := by rw [split, List.append_assoc]
    subst start
    have here : Course settings source _ (builder.tokenStates settings token) _ :=
      token_course first whole nonempty stands builder
    obtain ⟨position, course⟩ := ih others _ whole (byteLength_append ..).symm
      (builder.token settings source token)
    exact ⟨position, here.trans course⟩

end Tokens

end Builder

/-- A document is read in one course through the source, at whose end nothing is open. -/
theorem parse_course (settings : Settings) (source : String) :
    ∃ position final, Builder.Course settings source ⟨0, .initial⟩ (Builder.history settings source)
        ⟨position, final⟩ ∧ final.opened = [] ∧
      Document.parse settings source = (⟨final.root, final.nextId⟩, final.diagnostics) := by
  obtain ⟨position, course⟩ := Builder.tokens_course (scan_tiles source) (scan_isNamed source) [] rfl
    rfl .initial
  refine ⟨position, _, course.trans (Builder.closings_course _ _ (Nat.le_refl _) position), ?_, rfl⟩
  have closed := Builder.closeAllUnmatched_opened_length settings _
    ((scan source).foldl (Builder.token settings source) .initial) (Nat.le_refl _)
  exact List.eq_nil_of_length_eq_zero (by omega)

end Templating.Template
