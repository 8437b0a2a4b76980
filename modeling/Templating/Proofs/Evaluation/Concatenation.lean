import Templating.Proofs.Evaluation.Inert
import Templating.Proofs.Translation.Listeners
import Templating.Proofs.Translation.Trees
/-!
# Interpolated text is shown part by part

The code of a text with expressions in it is read as one sum, whose terms are the parts of
the text in order: each expression is cut out of the sum exactly where it was put in.  The
text node that is rendered from it holds the texts of the parts, one behind the other; a
part that fails ends the evaluation, and parts behind it are not evaluated.
-/
set_option autoImplicit false

namespace Templating.Rendering

open Templating.Text Templating.Template Templating.Expression Templating.Expression.Grammar

/-- Every expression of the text can be read alone. -/
def ReadAlone (segments : List Segment) : Prop := ∀ segment ∈ segments, SoundSegment segment

theorem segmentCode_balanced {segment : Segment} (sound : SoundSegment segment) :
    IsBalanced segment.code := by
  cases segment with
  | literal content => exact closes_encode content
  | binding expression =>
    have inside : IsBalanced expression := isBalanced_of_readsAlone sound
    have call := IsBalanced.append (by decide : IsBalanced "_s") inside.inParentheses
    simpa [Segment.code, IsBalanced] using call

theorem concatenation_balanced {segments : List Segment} (sound : ReadAlone segments) :
    IsBalanced (Segment.concatenation segments) := by
  refine IsBalanced.join (by decide) ?_
  intro code held
  obtain ⟨segment, inside, rfl⟩ := List.mem_map.mp held
  exact segmentCode_balanced (sound segment inside)

theorem parseExpression_textCall {code : String} (balanced : IsBalanced code) {content : Expr}
    (reads : Reads expression endsListener code.toList content) :
    parseExpression? ("_v(" ++ code ++ ")") = some (helperCall "_v" [content]) := by
  have call := helperCall_reads "_v" (by decide) (by decide) (.cons reads .nil)
  have closed := IsBalanced.append (by decide : IsBalanced "_v") balanced.inParentheses
  have source : "_v(" ++ code ++ ")" = "_v" ++ ("(" ++ code ++ ")") := by
    simp [← String.toList_inj]
  rw [source]
  refine parseExpression_of_reads closed ?_
  simpa [commaList, commaTail] using call.listed

end Templating.Rendering

namespace Templating.Evaluation

open Templating.Text Templating.Data Templating.Template Templating.Expression Templating.Rendering

/-- The text of one part, where `value` evaluates an expression. -/
def segmentText (value : String → Eval Datum) : Segment → Eval String
  | .literal content => pure content
  | .binding expression => do
    let datum ← value expression
    pure datum.toValue.shown

section Sum

variable {environment : Environment} {enter : Entrance} {scope : Scope}
  (unhidden : scope.lookup "_s" = none)

include unhidden

theorem evaluate_segmentMeaning (segment : Segment) :
    evaluate environment enter scope (segmentMeaning segment) = (do
      let text ← segmentText (fun code => evaluate environment enter scope (captured code)) segment
      pure (.ofString text)) := by
  cases segment with
  | literal content =>
    rw [segmentText, pure_bind]
    rfl
  | binding expression =>
    rw [segmentMeaning, evaluate_helperCall (by decide) unhidden]
    simp only [evaluateAll, segmentText, bind_assoc, pure_bind]
    rfl

theorem evaluate_sum {first : Expr} {start : Eval String}
    (begins : evaluate environment enter scope first = start >>= fun text => pure (.ofString text))
    (others : List Segment) :
    evaluate environment enter scope ((others.map segmentMeaning).foldl (.binary .add) first) = (do
      let text ← start
      let texts ←
        others.mapM (segmentText fun code => evaluate environment enter scope (captured code))
      pure (.ofString (text ++ String.join texts))) := by
  induction others generalizing first start with
  | nil =>
    simp only [List.map_nil, List.foldl_nil, List.mapM_nil, pure_bind]
    rw [begins]
    simp
  | cons segment others ih =>
    have longer : evaluate environment enter scope (.binary .add first (segmentMeaning segment)) =
        (do
          let text ← start
          let more ←
            segmentText (fun code => evaluate environment enter scope (captured code)) segment
          pure (text ++ more)) >>= fun text => pure (.ofString text) := by
      rw [evaluate, begins]
      simp only [bind_assoc, pure_bind, evaluate_segmentMeaning unhidden]
      rfl
    rw [List.map_cons, List.foldl_cons, ih longer]
    simp only [List.mapM_cons, bind_assoc, pure_bind, String.join_cons, String.append_assoc]

theorem evaluate_segmentsMeaning {segments : List Segment} (given : segments ≠ []) :
    evaluate environment enter scope (segmentsMeaning segments) = (do
      let texts ←
        segments.mapM (segmentText fun code => evaluate environment enter scope (captured code))
      pure (.ofString (String.join texts))) := by
  cases segments with
  | nil => exact absurd rfl given
  | cons first others =>
    rw [segmentsMeaning, evaluate_sum unhidden (evaluate_segmentMeaning unhidden first)]
    simp only [List.mapM_cons, bind_assoc, pure_bind, String.join_cons]

end Sum

theorem interpolations_ne_nil {delimiters : Delimiters} {content : String} {segments : List Segment}
    (cut : interpolations? delimiters content = some segments) : segments ≠ [] := by
  rintro rfl
  unfold interpolations? at cut
  split at cut
  · simp only at cut
    split at cut
    · next some =>
      rw [Option.some.inj cut] at some
      cases some
    · cases cut
  · cases cut

/-- Interpolated text is read as the sum of its parts, and rendered as their texts one behind
the other: of the literals as they are, of each expression the text that its value is shown
as.  The expressions are evaluated in order, and the first that fails ends the evaluation. -/
theorem interpolated_shown {delimiters : Delimiters} {content : String} {segments : List Segment}
    (cut : interpolations? delimiters content = some segments)
    (alone : ∀ expression, .binding expression ∈ segments → readsAlone expression = true) :
    parseExpression? (Segment.concatenation segments) = some (segmentsMeaning segments) ∧
    parseExpression? ("_v(" ++ Segment.concatenation segments ++ ")") =
      some (helperCall "_v" [segmentsMeaning segments]) ∧
    ∀ (environment : Environment) (enter : Entrance) (scope : Scope),
      scope.lookup "_s" = none → scope.lookup "_v" = none →
      evaluate environment enter scope (helperCall "_v" [segmentsMeaning segments]) = (do
        let texts ← segments.mapM fun
          | .literal content => pure content
          | .binding expression => do
            let datum ← evaluate environment enter scope (captured expression)
            pure datum.toValue.shown
        pure (.node (.text (String.join texts)))) := by
  have given := interpolations_ne_nil cut
  have sound : ReadAlone segments := by
    intro segment held
    cases segment with
    | literal content => trivial
    | binding expression => exact alone expression held
  have balanced := concatenation_balanced sound
  have reads := concatenation_reads given sound
  refine ⟨parseExpression_of_reads balanced reads, parseExpression_textCall balanced reads, ?_⟩
  intro environment enter scope noShow noText
  rw [evaluate_helperCall (by decide) noText]
  simp only [evaluateAll, evaluate_segmentsMeaning noShow given, bind_assoc, pure_bind]
  rfl

/-- A greeting, of which only the name is evaluated. -/
theorem greeting_shown :
    interpolations? .standard "Hi \x7b\x7b name \x7d\x7d!" =
      some [.literal "Hi ", .binding "name", .literal "!"] ∧
    parseExpression? "\x22Hi \x22+_s(name)+\x22!\x22" =
      some (segmentsMeaning [.literal "Hi ", .binding "name", .literal "!"]) ∧
    evaluate ⟨.record [("name", .string "Ada")], [], []⟩
        ⟨fun _ _ => throw .tooDeep, fun _ => throw .tooDeep⟩ []
        (helperCall "_v" [segmentsMeaning [.literal "Hi ", .binding "name", .literal "!"]]) [] =
      (.ok (.node (.text "Hi Ada!")), []) := by
  have cut : interpolations? .standard "Hi \x7b\x7b name \x7d\x7d!" =
      some [.literal "Hi ", .binding "name", .literal "!"] := by decide +kernel
  have alone : ∀ expression,
      .binding expression ∈ [Segment.literal "Hi ", .binding "name", .literal "!"] →
      readsAlone expression = true := by
    intro expression held
    obtain rfl : expression = "name" := by simpa using held
    decide +kernel
  obtain ⟨read, -, shown⟩ := interpolated_shown cut alone
  refine ⟨cut, ?_, ?_⟩
  · have code : Segment.concatenation [.literal "Hi ", .binding "name", .literal "!"] =
        "\x22Hi \x22+_s(name)+\x22!\x22" := by decide +kernel
    rw [← code]
    exact read
  · rw [shown _ _ [] rfl rfl]
    rfl

end Templating.Evaluation
