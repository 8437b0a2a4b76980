import Templating.Proofs.Template.Rules
import Templating.Proofs.Translation.Meaning
/-!
# The switch of the analysis

Whether a template is analyzed counts neither while it is read nor for what its
elements mean with given marks.
-/
set_option autoImplicit false

namespace Templating.Template

open Templating.Text Templating.Data Templating.Markup

def Settings.switched (settings : Settings) (optimizes : Bool) : Settings := { settings with optimizes }

section Reading

variable (settings : Settings) (optimizes : Bool)

namespace Builder

theorem close_switched (builder : Builder) (element : Element) :
    builder.close (settings.switched optimizes) element = builder.close settings element := by
  have completed : element.head.complete (settings.switched optimizes) = element.head.complete settings :=
    @Head.complete_congr settings (settings.switched optimizes) rfl rfl rfl element.head
  simp only [close, completed]
  rfl

theorem closeUnmatched_switched (builder : Builder) :
    builder.closeUnmatched (settings.switched optimizes) = builder.closeUnmatched settings := by
  simp only [closeUnmatched, close_switched]

theorem closeAllUnmatched_switched (count : Nat) (builder : Builder) :
    builder.closeAllUnmatched (settings.switched optimizes) count =
      builder.closeAllUnmatched settings count := by
  induction count generalizing builder with
  | zero => rfl
  | succ count ih => rw [closeAllUnmatched, closeAllUnmatched, ih, closeUnmatched_switched]

theorem closeThrough_switched (tag : String) (span : Span) (builder : Builder) :
    builder.closeThrough (settings.switched optimizes) tag span = builder.closeThrough settings tag span := by
  simp only [closeThrough, closeAllUnmatched_switched, closeMatched, close_switched]

theorem startTag_switched (tag : String) (attributes : List SourceAttribute) (selfClosing : Bool)
    (span : Span) (builder : Builder) :
    builder.startTag (settings.switched optimizes) tag attributes selfClosing span =
      builder.startTag settings tag attributes selfClosing span := by
  have before : builder.closeBefore (settings.switched optimizes) tag span =
      builder.closeBefore settings tag span := by
    simp only [closeBefore, closeThrough_switched]
    rfl
  simp only [startTag, before, close_switched]
  rfl

theorem token_switched (source : String) (builder : Builder) (token : Token) :
    builder.token (settings.switched optimizes) source token = builder.token settings source token := by
  cases token with
  | startTag name attributes selfClosing span => exact startTag_switched settings optimizes _ _ _ _ _
  | endTag name span =>
    simp only [Builder.token, endTag, closeThrough_switched, close_switched, startTag_switched]
  | text content span => rfl
  | comment content span => rfl
  | malformed content span => rfl

end Builder

/-- The switch of the analysis does not count while a template is read. -/
theorem parse_switched (source : String) :
    Document.parse (settings.switched optimizes) source = Document.parse settings source := by
  have read (tokens : List Token) (builder : Builder) :
      tokens.foldl (Builder.token (settings.switched optimizes) source) builder =
        tokens.foldl (Builder.token settings source) builder := by
    simp only [funext fun before => funext fun token =>
      Builder.token_switched settings optimizes source before token]
  simp only [Document.parse, read, Builder.finish, Builder.closeAllUnmatched_switched]

end Reading

end Templating.Template

namespace Templating.Rendering

open Templating.Template

section Meaning

variable (settings : Settings) (optimizes : Bool) (annotations : Annotations)

theorem coreMeaning_switched (head : Head) (children : List Node) (translators : List Translator) :
    coreMeaning (settings.switched optimizes) head children translators =
      coreMeaning settings head children translators := rfl

theorem layer_switched (head : Head) (branches : List (Option String × Translator)) (inner : Translator)
    (layer : Layer) :
    layer.meaning ⟨settings.switched optimizes, annotations⟩ head branches inner =
      layer.meaning ⟨settings, annotations⟩ head branches inner := by
  cases layer <;> rfl

mutual

theorem elementMeaning_switched (element : Element) :
    elementMeaning ⟨settings.switched optimizes, annotations⟩ element =
      elementMeaning ⟨settings, annotations⟩ element := by
  match element with
  | ⟨head, children, branches⟩ =>
    simp only [elementMeaning, nodeMeanings_switched children, branchMeanings_switched branches,
      layer_switched, coreMeaning_switched]

theorem nodeMeanings_switched (nodes : List Node) :
    nodeMeanings ⟨settings.switched optimizes, annotations⟩ nodes =
      nodeMeanings ⟨settings, annotations⟩ nodes := by
  match nodes with
  | [] => rfl
  | .element element :: rest =>
    simp only [nodeMeanings, nodeMeaning, elementMeaning_switched element, nodeMeanings_switched rest]
  | .text run :: rest => simp only [nodeMeanings, nodeMeaning, nodeMeanings_switched rest]
  | .comment comment :: rest => simp only [nodeMeanings, nodeMeaning, nodeMeanings_switched rest]

theorem branchMeanings_switched (branches : List Branch) :
    branchMeanings ⟨settings.switched optimizes, annotations⟩ branches =
      branchMeanings ⟨settings, annotations⟩ branches := by
  match branches with
  | [] => rfl
  | ⟨condition, block⟩ :: rest =>
    simp only [branchMeanings, elementMeaning_switched block, branchMeanings_switched rest]

end

theorem documentMeaning_switched (document : Document) :
    documentMeaning ⟨settings.switched optimizes, annotations⟩ document =
      documentMeaning ⟨settings, annotations⟩ document := by
  simp only [documentMeaning, elementMeaning_switched]

end Meaning

end Templating.Rendering
