import Templating.Proofs.Template.Spans
import Templating.Proofs.Text.Trimming
import Templating.Proofs.Translation.Drafts
import Templating.Proofs.Translation.Programs
/-!
# Where problems are reported

Whatever is reported when a template is compiled has a place in the template: the passes
behind reading report at places that reading has left in the tree.  Blanks around a
template only move these places.
-/
set_option autoImplicit false

namespace Templating.Rendering

open Templating.Text Templating.Data Templating.Markup Templating.Template

/-! ## Checking -/

section Check

variable {source : String}

theorem errorsAt_pointInto {span : Span} (fits : span.IsWithin source) (problems : List Problem) :
    PointInto source (problems.map (.errorAt span)) := by
  intro diagnostic held
  obtain ⟨problem, -, rfl⟩ := List.mem_map.mp held
  exact errorAt_pointsInto fits problem

mutual

theorem check_pointInto (element : Element)
    (located : element.Throughout (Element.IsLocated source)) : PointInto source element.check := by
  match element with
  | ⟨head, children, branches⟩ =>
    obtain ⟨own, inner, beside⟩ := located_iff.mp located
    rw [Element.check]
    split
    · exact List.forall_mem_nil _
    · exact List.forall_mem_append.mpr ⟨List.forall_mem_append.mpr
        ⟨errorsAt_pointInto own.fits _, checkNodes_pointInto children inner⟩,
        checkBranches_pointInto branches beside⟩

theorem checkNode_pointInto (node : Node) (located : node.IsLocated source) :
    PointInto source node.check := by
  match node with
  | .element element => exact check_pointInto element located
  | .text run => exact errorsAt_pointInto located _
  | .comment _ => exact List.forall_mem_nil _

theorem checkNodes_pointInto (nodes : List Node) (located : ∀ node ∈ nodes, node.IsLocated source) :
    PointInto source (checkNodes nodes) := by
  match nodes with
  | [] => exact List.forall_mem_nil _
  | node :: rest =>
    obtain ⟨first, others⟩ := List.forall_mem_cons.mp located
    exact List.forall_mem_append.mpr ⟨checkNode_pointInto node first, checkNodes_pointInto rest others⟩

theorem checkBranches_pointInto (branches : List Branch)
    (located : ∀ branch ∈ branches, branch.block.Throughout (Element.IsLocated source)) :
    PointInto source (checkBranches branches) := by
  match branches with
  | [] => exact List.forall_mem_nil _
  | ⟨condition, block⟩ :: rest =>
    obtain ⟨first, others⟩ := List.forall_mem_cons.mp located
    exact List.forall_mem_append.mpr
      ⟨check_pointInto block first, checkBranches_pointInto rest others⟩

end

end Check

/-! ## Writing -/

section Write

variable {source : String} {context : Context}

theorem directiveDiagnostics_pointInto {settings : Settings} (keeps : settings.KeepsSpans) {head : Head}
    (located : ∀ directive ∈ head.directives, directive.span.IsWithin source) :
    PointInto source (directiveDiagnostics settings head) := by
  intro diagnostic held
  obtain ⟨directive, given, reported⟩ := List.mem_flatMap.mp held
  unfold directiveOutcome at reported
  split at reported
  · next handler found =>
    intro span shown
    rw [keeps.handlers _ handler found directive diagnostic reported span shown]
    exact located directive given
  · cases reported

theorem IsReportOf.pointInto (keeps : context.settings.KeepsSpans) {element : Element}
    {diagnostics : List Diagnostic} (own : IsReportOf context element.head diagnostics)
    (located : element.IsLocated source) : PointInto source diagnostics := by
  cases own with
  | directives => exact directiveDiagnostics_pointInto keeps located.head.directives
  | unkeyed => exact List.forall_mem_singleton.mpr (errorAt_pointsInto located.head.fits _)
  | loop given =>
    unfold loopDiagnostics
    split
    · exact List.forall_mem_singleton.mpr (tipAt_pointsInto located.head.fits _)
    · exact List.forall_mem_nil _

theorem Transition.pointInto (keeps : context.settings.KeepsSpans) {elements : List Element}
    {before after : Draft} {gained : Code}
    (transition : Transition context (Element.IsLocated source) elements before gained after)
    (points : PointInto source before.diagnostics) : PointInto source after.diagnostics := by
  induction transition with
  | nothing draft => exact points
  | append one two first second => exact second (first points)
  | report located own draft =>
    exact List.forall_mem_append.mpr ⟨points, own.pointInto keeps located⟩
  | fragment located own inner inLoop ih => exact ih points
  | number draft => exact points

end Write

/-! ## Compiling -/

/-- All that is reported about a text, in the order of the passes. -/
def reports (settings : Settings) (source : String) : List Diagnostic :=
  let (document, reading) := Document.parse settings source
  let annotations := if settings.optimizes then document.analyze settings else .empty
  reading ++ (generate settings annotations document).2 ++ document.check

/-- The reports about the text without the blanks around it, moved by those in front. -/
theorem compile_diagnostics (settings : Settings) (template : String) :
    (compile settings template).diagnostics = (reports settings (trimmed template)).map
      (Diagnostic.relocate (if settings.reportsSpans then
        some (byteLength (template.toList.takeWhile isBlank)) else none)) := by
  unfold compile reports
  generalize Document.parse settings (trimmed template) = parsed
  obtain ⟨document, reading⟩ := parsed
  rfl

theorem reports_pointInto {settings : Settings} (keeps : settings.KeepsSpans) (source : String) :
    PointInto source (reports settings source) := by
  obtain ⟨located, reading⟩ := parse_located keeps source
  unfold reports
  generalize Document.parse settings source = parsed at located reading
  obtain ⟨document, diagnostics⟩ := parsed
  simp only
  generalize (if settings.optimizes then document.analyze settings else .empty) = annotations
  refine List.forall_mem_append.mpr ⟨List.forall_mem_append.mpr ⟨reading, ?_⟩, ?_⟩
  · obtain ⟨after, transition, -, same⟩ := generate_transition settings annotations located
    rw [same]
    exact transition.pointInto keeps (List.forall_mem_nil _)
  · unfold Document.check
    cases given : document.root with
    | none => exact List.forall_mem_nil _
    | some root => exact check_pointInto root (located root given)

theorem reports_empty (settings : Settings) : reports settings "" = [] := by
  have read : Document.parse settings "" = (⟨none, 0⟩, []) := rfl
  unfold reports
  rw [read]
  rfl

theorem base_keepsSpans {base : Settings} (known : IsBase base) {overlay : Overlay}
    (plain : overlay.isPlain = true) : (base.overlaid overlay).KeepsSpans := by
  obtain ⟨-, directives⟩ := @overlaid_plain base _ plain
  constructor
  · intro extension held place allowed delimiters head inside
    simp only [Overlay.isPlain, Bool.and_eq_true, List.isEmpty_iff] at plain
    rcases base_extensions known plain.1 held with rfl | rfl
    · exact takeBoth_staysIn "class" "staticClass" Web.classCode id delimiters inside
    · exact takeBoth_staysIn "style" "staticStyle" Web.styleCode (fun value => "(" ++ value ++ ")")
        delimiters inside
  · intro name handler found directive diagnostic held
    have listed := Dictionary.mem_of_find found
    rw [directives] at listed
    have silent : (handler directive).diagnostics = [] := by
      rcases known with rfl | rfl
      · have handlers : Web.settings.directives =
            [("cloak", Web.droppedDirective), ("html", Web.propDirective "innerHTML"),
              ("text", Web.propDirective "textContent")] := rfl
        rw [handlers] at listed
        simp only [List.mem_cons, Prod.mk.injEq, List.not_mem_nil, or_false] at listed
        rcases listed with ⟨-, rfl⟩ | ⟨-, rfl⟩ | ⟨-, rfl⟩ <;> rfl
      · cases listed
    rw [silent] at held
    cases held

theorem relocate_relocate (first second : Nat) (diagnostic : Diagnostic) :
    (diagnostic.relocate (some first)).relocate (some second) =
      diagnostic.relocate (some (second + first)) := by
  obtain ⟨severity, problem, span⟩ := diagnostic
  cases span with
  | none => rfl
  | some span =>
    simp only [Diagnostic.relocate, Option.bind_some, Option.map_some, Span.shift]
    congr 3 <;> omega

/-- Blanks around a template move what is reported by the blanks in front. -/
theorem compile_diagnostics_padded (settings : Settings) (source : String) {before behind : String}
    (blankBefore : allBlank before = true) (blankBehind : allBlank behind = true) :
    (compile settings (before ++ source ++ behind)).diagnostics =
      (compile settings source).diagnostics.map
        (Diagnostic.relocate (some (byteLength before.toList))) := by
  rw [compile_diagnostics, compile_diagnostics, trimmed_padded blankBefore blankBehind, List.map_map]
  by_cases blank : allBlank source = true
  · rw [trimmed_blank blank, reports_empty]
    rfl
  · rw [leading_padded blankBefore (by simpa using blank)]
    apply List.map_congr_left
    intro diagnostic _
    cases settings.reportsSpans with
    | true => exact (relocate_relocate _ _ diagnostic).symm
    | false => rfl

/-- Every range that is reported is in the template, blanks around it included, between
two of its characters.  Further blanks change no more than these ranges, which move by
the blanks in front. -/
theorem compile_reports_in_template {settings : Settings} (keeps : settings.KeepsSpans) :
    (∀ template, ∀ diagnostic ∈ (compile settings template).diagnostics, ∀ span ∈ diagnostic.span,
      span.start ≤ span.stop ∧ span.stop ≤ template.utf8ByteSize ∧
        IsBoundary template span.start ∧ IsBoundary template span.stop) ∧
    ∀ source before behind, allBlank before = true → allBlank behind = true →
      let inner := compile settings source
      let outer := compile settings (before ++ source ++ behind)
      outer.document = inner.document ∧ outer.annotations = inner.annotations ∧
        outer.program = inner.program ∧
        outer.diagnostics = inner.diagnostics.map fun diagnostic =>
          { diagnostic with span := diagnostic.span.map fun span => span.shift before.utf8ByteSize } := by
  constructor
  · intro template diagnostic held span shown
    rw [compile_diagnostics] at held
    obtain ⟨original, reported, rfl⟩ := List.mem_map.mp held
    have points := reports_pointInto keeps (trimmed template) original reported
    obtain ⟨behind, split⟩ := trimmed_split template
    obtain ⟨bytes, distance, moved⟩ := Option.bind_eq_some_iff.mp shown
    obtain ⟨inside, given, rfl⟩ := Option.map_eq_some_iff.mp moved
    have same : bytes = byteLength (template.toList.takeWhile isBlank) := by
      split at distance
      · exact (Option.some.inj distance).symm
      · cases distance
    subst same
    have within := (points inside given).shift split
    exact ⟨within.ordered, byteLength_toList template ▸ within.stop_le, within.start, within.stop⟩
  · intro source before behind blankBefore blankBehind
    have same := trimmed_padded blankBefore blankBehind source
    obtain ⟨parsed, annotated, written, -⟩ := compile_parts settings source
    obtain ⟨parsedToo, annotatedToo, writtenToo, -⟩ :=
      compile_parts settings (before ++ source ++ behind)
    have document : (compile settings (before ++ source ++ behind)).document =
        (compile settings source).document := by rw [parsedToo, parsed, same]
    have annotations : (compile settings (before ++ source ++ behind)).annotations =
        (compile settings source).annotations := by rw [annotatedToo, annotated, document]
    refine ⟨document, annotations, by rw [writtenToo, written, document, annotations], ?_⟩
    rw [← byteLength_toList]
    exact compile_diagnostics_padded settings source blankBefore blankBehind

/-- A binding without a value, an interpolation and an element that are not closed, and
text behind the root, with wide characters among them. -/
def misplacedParts : String := "<p :ä=\"\" v-if>\x7b\x7b ü<b>ö</p>é"

theorem misplacedParts_reports_padded :
    let settings := Web.settings.overlaid { Overlay.empty with reportsSpans := some true }
    let before := "\u3000\n"
    let behind := " \u00a0"
    let inner := compile settings misplacedParts
    let outer := compile settings (before ++ misplacedParts ++ behind)
    settings.KeepsSpans ∧ allBlank before = true ∧ allBlank behind = true ∧
      outer.diagnostics.map Diagnostic.span =
        [some ⟨19, 24⟩, some ⟨24, 27⟩, some ⟨7, 13⟩, some ⟨33, 35⟩] ∧
      (∀ diagnostic ∈ outer.diagnostics, ∀ span ∈ diagnostic.span,
        span.start ≤ span.stop ∧ span.stop ≤ (before ++ misplacedParts ++ behind).utf8ByteSize ∧
          IsBoundary (before ++ misplacedParts ++ behind) span.start ∧
          IsBoundary (before ++ misplacedParts ++ behind) span.stop) ∧
      outer.document = inner.document ∧ outer.annotations = inner.annotations ∧
        outer.program = inner.program ∧
        outer.diagnostics = inner.diagnostics.map fun diagnostic =>
          { diagnostic with span := diagnostic.span.map fun span => span.shift before.utf8ByteSize } := by
  have keeps : (Web.settings.overlaid { Overlay.empty with reportsSpans := some true }).KeepsSpans :=
    base_keepsSpans (.inl rfl) rfl
  have blankBefore : allBlank "\u3000\n" = true := by decide
  have blankBehind : allBlank " \u00a0" = true := by decide
  obtain ⟨inside, moved⟩ := compile_reports_in_template keeps
  exact ⟨keeps, blankBefore, blankBehind, by decide +kernel, inside _,
    moved misplacedParts "\u3000\n" " \u00a0" blankBefore blankBehind⟩

end Templating.Rendering
