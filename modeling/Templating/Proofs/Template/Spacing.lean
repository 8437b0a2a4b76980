import Mathlib.Data.List.Chain
import Templating.Proofs.Template.Lineage
import Templating.Proofs.Template.Rules
/-!
# Spaces between children

Outside preformatted text, a template is read so that no element ends in a single
space and no two single spaces follow each other, whatever is inserted, closed,
left out or folded into a branch between them.  Where texts are condensed, a
space is the only blank of ASCII in them, and stands alone.
-/
set_option autoImplicit false

namespace Templating.Template

open Templating.Text Templating.Data Templating.Markup

/-- A space is the only blank, and stands alone. -/
structure IsCondensed (content : String) : Prop where
  blank : ∀ c ∈ content.toList, isAsciiBlank c = true → c = ' '
  alone : content.toList.IsChain fun first second => ¬ (first = ' ' ∧ second = ' ')

/-- No two single spaces follow each other. -/
structure AreSpaced (whitespace : Whitespace) (children : List Node) : Prop where
  apart : children.IsChain fun first second =>
    ¬ (first.isBlankSpace = true ∧ second.isBlankSpace = true)
  condensed : whitespace = .condense → ∀ run, .text run ∈ children → IsCondensed run.content

/-- The children are spaced, and the last one is no single space. -/
structure Element.IsSpaced (whitespace : Whitespace) (element : Element) : Prop
    extends AreSpaced whitespace element.children where
  ending : ∀ last ∈ element.children.getLast?, last.isBlankSpace = false

/-! ## Condensing -/

theorem condense_blank (pending : Bool) (source : List Char) :
    ∀ c ∈ Builder.condense pending source, isAsciiBlank c = true → c = ' ' := by
  induction source generalizing pending with
  | nil => exact fun c held => by cases held
  | cons first rest ih =>
    unfold Builder.condense
    split
    · split
      · exact ih true
      · intro c held blank
        rcases List.mem_cons.mp held with rfl | held
        · rfl
        · exact ih true c held blank
    · next visible =>
      intro c held blank
      rcases List.mem_cons.mp held with rfl | held
      · exact absurd blank visible
      · exact ih false c held blank

theorem condense_pending_head (source : List Char) :
    ∀ c ∈ (Builder.condense true source).head?, c ≠ ' ' := by
  induction source with
  | nil => exact fun c held => by cases held
  | cons first rest ih =>
    unfold Builder.condense
    split
    · exact ih
    · next visible =>
      rintro c held rfl
      cases held
      exact visible rfl

theorem condense_alone (pending : Bool) (source : List Char) :
    (Builder.condense pending source).IsChain fun first second => ¬ (first = ' ' ∧ second = ' ') := by
  induction source generalizing pending with
  | nil => exact .nil
  | cons first rest ih =>
    unfold Builder.condense
    split
    · split
      · exact ih true
      · refine List.isChain_cons.mpr ⟨fun next held both => ?_, ih true⟩
        exact condense_pending_head rest next held both.2
    · next visible =>
      refine List.isChain_cons.mpr ⟨fun next _ both => ?_, ih false⟩
      rw [both.1] at visible
      exact visible rfl

theorem condense_isCondensed (pending : Bool) (source : List Char) :
    IsCondensed (String.ofList (Builder.condense pending source)) where
  blank := by
    rw [String.toList_ofList]
    exact condense_blank pending source
  alone := by
    rw [String.toList_ofList]
    exact condense_alone pending source

/-! ## Children -/

section Children

variable {whitespace : Whitespace} {children : List Node}

theorem AreSpaced.nil : AreSpaced whitespace [] := ⟨.nil, fun _ _ held => by cases held⟩

theorem AreSpaced.ofPrefix (spaced : AreSpaced whitespace children) {kept : List Node}
    (front : kept <+: children) : AreSpaced whitespace kept where
  apart := by
    obtain ⟨behind, rfl⟩ := front
    exact (List.isChain_append.mp spaced.apart).1
  condensed := fun condenses run held => spaced.condensed condenses run (front.subset held)

theorem AreSpaced.concat (spaced : AreSpaced whitespace children) {node : Node}
    (apart : ∀ last ∈ children.getLast?, ¬ (last.isBlankSpace = true ∧ node.isBlankSpace = true))
    (condensed : whitespace = .condense → ∀ run, node = .text run → IsCondensed run.content) :
    AreSpaced whitespace (children ++ [node]) where
  apart := by
    refine List.isChain_append.mpr ⟨spaced.apart, .singleton _, fun last held next same => ?_⟩
    cases same
    exact apart last held
  condensed := by
    intro condenses run held
    rcases List.mem_append.mp held with held | held
    · exact spaced.condensed condenses run held
    · exact condensed condenses run (List.mem_singleton.mp held).symm

theorem AreSpaced.concatElement (spaced : AreSpaced whitespace children) (element : Element) :
    AreSpaced whitespace (children ++ [.element element]) :=
  spaced.concat (fun _ _ both => Bool.noConfusion both.2) fun _ _ same => by cases same

theorem withoutTrailingSpaces_prefix (children : List Node) :
    withoutTrailingSpaces children <+: children := by
  rw [← List.reverse_suffix]
  simpa [withoutTrailingSpaces] using List.dropWhile_suffix Node.isBlankSpace

theorem withoutTrailingSpaces_getLast (children : List Node) :
    ∀ last ∈ (withoutTrailingSpaces children).getLast?, last.isBlankSpace = false := by
  intro last held
  rw [withoutTrailingSpaces, List.getLast?_reverse] at held
  have first := List.head?_dropWhile_not Node.isBlankSpace children.reverse
  rw [Option.mem_def.mp held] at first
  simpa using first

theorem dropToElement_suffix (nodes : List Node) : (dropToElement nodes).1 <:+ nodes := by
  induction nodes with
  | nil => exact List.suffix_rfl
  | cons first earlier ih =>
    cases first with
    | text run => exact ih.trans (List.suffix_cons _ _)
    | comment comment => exact ih.trans (List.suffix_cons _ _)
    | element element => exact List.suffix_rfl

end Children

/-! ## Open elements -/

/-- The element is still open: its children are spaced, and all is well inside it. -/
structure Element.IsSpacing (whitespace : Whitespace) (element : Element) : Prop where
  spaced : AreSpaced whitespace element.children
  below : element.Below (Element.IsSpaced whitespace)

section Open

variable {whitespace : Whitespace} {parent element : Element}

theorem Element.IsSpacing.fresh (head : Head) : Element.IsSpacing whitespace ⟨head, [], []⟩ :=
  ⟨.nil, fun _ held => (by cases held), fun _ held => by cases held⟩

theorem Element.IsSpacing.addLeaf (spacing : parent.IsSpacing whitespace) {node : Node}
    (leaf : ∀ child, node ≠ .element child)
    (apart : ∀ last ∈ parent.children.getLast?,
      ¬ (last.isBlankSpace = true ∧ node.isBlankSpace = true))
    (condensed : whitespace = .condense → ∀ run, node = .text run → IsCondensed run.content) :
    (parent.addChild node).IsSpacing whitespace where
  spaced := spacing.spaced.concat apart condensed
  below := by
    refine ⟨fun child held => ?_, spacing.below.branches⟩
    rcases List.mem_append.mp held with held | held
    · exact spacing.below.children child held
    · exact absurd (List.mem_singleton.mp held).symm (leaf child)

theorem Element.IsSpacing.addChild (spacing : parent.IsSpacing whitespace)
    (inside : element.Throughout (Element.IsSpaced whitespace)) :
    (parent.addChild (.element element)).IsSpacing whitespace where
  spaced := spacing.spaced.concatElement element
  below := by
    refine ⟨fun child held => ?_, spacing.below.branches⟩
    rcases List.mem_append.mp held with held | held
    · exact spacing.below.children child held
    · cases List.mem_singleton.mp held
      exact inside

theorem addBranch_isSpaced {previous branch : Element}
    (spaced : previous.Throughout (Element.IsSpaced whitespace))
    (inside : branch.Throughout (Element.IsSpaced whitespace)) :
    (previous.addBranch branch).Throughout (Element.IsSpaced whitespace) := by
  obtain ⟨own, below⟩ := Element.throughout_iff.mp spaced
  obtain ⟨ownBranch, -⟩ := Element.throughout_iff.mp inside
  refine Element.throughout_iff.mpr ⟨⟨own.toAreSpaced, own.ending⟩, below.children, ?_⟩
  intro other held
  rcases List.mem_append.mp held with held | held
  · exact below.branches other held
  · cases List.mem_singleton.mp held
    exact inside.withHead ⟨ownBranch.toAreSpaced, ownBranch.ending⟩

/-- What stands between an element and its branch goes; the element that gets the
branch stands where it stood. -/
theorem Element.IsSpacing.attachBranch {branch : Element} (spacing : parent.IsSpacing whitespace)
    (inside : branch.Throughout (Element.IsSpaced whitespace)) :
    (attachBranch parent branch).1.IsSpacing whitespace := by
  have front : (dropToElement parent.children.reverse).1.reverse <+: parent.children := by
    rw [← List.reverse_suffix, List.reverse_reverse]
    exact dropToElement_suffix _
  unfold Templating.Template.attachBranch
  simp only
  generalize (dropToElement parent.children.reverse).2 = diagnostics
  generalize (dropToElement parent.children.reverse).1 = backwards at front ⊢
  have kept : ({ parent with children := backwards.reverse } : Element).IsSpacing whitespace :=
    ⟨spacing.spaced.ofPrefix front,
      fun child held => spacing.below.children child (front.subset held), spacing.below.branches⟩
  split
  · next previous earlier =>
    split
    · rw [List.reverse_cons] at kept ⊢
      refine ⟨(kept.spaced.ofPrefix (List.prefix_append _ _)).concatElement _, ?_,
        kept.below.branches⟩
      intro child held
      rcases List.mem_append.mp held with held | held
      · exact kept.below.children child (List.mem_append_left _ held)
      · cases List.mem_singleton.mp held
        exact addBranch_isSpaced
          (kept.below.children previous (List.mem_append_right _ List.mem_cons_self)) inside
    · exact kept
  · exact kept

end Open

namespace Builder

section Moves

variable {settings : Settings} {source : String} {opens : String → Prop} {whitespace : Whitespace}
  {before after : Builder}

/-! ## Flowing text -/

theorem place_isPreformatted (builder : Builder) (element : Element) :
    (builder.place element).isPreformatted = builder.isPreformatted := by
  unfold place
  repeat' split
  all_goals rfl

theorem close_flowing {builder : Builder} (flowing : builder.isPreformatted = false)
    (element : Element) : (builder.close settings element).isPreformatted = false := by
  obtain ⟨closed, diagnostics, -, same⟩ := close_eq settings builder element
  rw [same]
  unfold Builder.leave
  simp only
  split
  · rfl
  · exact (place_isPreformatted _ _).trans flowing

theorem text_isPreformatted (source raw : String) (span : Span) (builder : Builder) :
    (builder.text settings source raw span).isPreformatted = builder.isPreformatted := by
  have reads := text_reads settings source raw span builder
  generalize builder.text settings source raw span = after at reads ⊢
  cases reads <;> rfl

theorem comment_isPreformatted (content : String) (span : Span) (builder : Builder) :
    (builder.comment settings content span).isPreformatted = builder.isPreformatted := by
  unfold comment updateParent
  repeat' split
  all_goals rfl

theorem Move.flowing (move : Move settings source opens before after)
    (ordinary : ∀ tag, opens tag → settings.platform.isPreformatted tag = false)
    (flowing : before.isPreformatted = false) : after.isPreformatted = false := by
  cases move with
  | report diagnostics => exact flowing
  | text raw span => exact (text_isPreformatted _ _ _ _).trans flowing
  | comment content span => exact (comment_isPreformatted _ _ _).trans flowing
  | enter named allowed attributes span reported =>
    exact Bool.or_eq_false_iff.mpr ⟨flowing, ordinary _ allowed⟩
  | lineBreak span => exact close_flowing (by exact flowing) _
  | close given span => exact close_flowing (by exact flowing) _

/-! ## Moves keep the spacing -/

structure Spaced (whitespace : Whitespace) (builder : Builder) : Prop where
  opened : ∀ element ∈ builder.opened, element.IsSpacing whitespace
  root : ∀ root ∈ builder.root, root.Throughout (Element.IsSpaced whitespace)

theorem Spaced.place {builder : Builder} (spaced : builder.Spaced whitespace) {element : Element}
    (inside : element.Throughout (Element.IsSpaced whitespace)) :
    (builder.place element).Spaced whitespace := by
  obtain ⟨opened, root⟩ := spaced
  unfold Builder.place
  cases given : builder.opened with
  | cons parent outer =>
    rw [given] at opened
    obtain ⟨spacing, outerSpacing⟩ := List.forall_mem_cons.mp opened
    simp only
    split
    · exact ⟨given ▸ opened, root⟩
    · split
      · exact ⟨List.forall_mem_cons.mpr ⟨spacing.attachBranch inside, outerSpacing⟩, root⟩
      · exact ⟨List.forall_mem_cons.mpr ⟨spacing.addChild inside, outerSpacing⟩, root⟩
  | nil =>
    rw [given] at opened
    simp only
    split
    · refine ⟨given ▸ opened, ?_⟩
      rintro _ ⟨⟩
      exact inside
    · next previous held =>
      split
      · refine ⟨given ▸ opened, ?_⟩
        rintro _ ⟨⟩
        exact addBranch_isSpaced (root previous held) inside
      · exact ⟨given ▸ opened, root⟩

theorem Spaced.close {builder : Builder} (spaced : builder.Spaced whitespace)
    (flowing : builder.isPreformatted = false) {element : Element}
    (spacing : element.IsSpacing whitespace) :
    (builder.close settings element).Spaced whitespace := by
  unfold Builder.close
  simp only
  generalize (if builder.isVerbatim then (element.head, [])
    else element.head.complete settings) = final
  rw [flowing, if_neg Bool.false_ne_true]
  have front := withoutTrailingSpaces_prefix element.children
  have inside : ({ element with
      head := final.1, children := withoutTrailingSpaces element.children } : Element).Throughout
        (Element.IsSpaced whitespace) := by
    refine Element.throughout_iff.mpr
      ⟨⟨spacing.spaced.ofPrefix front, withoutTrailingSpaces_getLast _⟩, ?_, spacing.below.branches⟩
    exact fun child held => spacing.below.children child (front.subset held)
  have reported : (builder.report final.2).Spaced whitespace := ⟨spaced.opened, spaced.root⟩
  have placed := reported.place inside
  exact ⟨placed.opened, placed.root⟩

theorem Spaced.addLeaf {parent : Element} {outer : List Element} (spaced : before.Spaced whitespace)
    (given : before.opened = parent :: outer) {node : Node} (leaf : ∀ child, node ≠ .element child)
    (apart : ∀ last ∈ parent.children.getLast?,
      ¬ (last.isBlankSpace = true ∧ node.isBlankSpace = true))
    (condensed : whitespace = .condense → ∀ run, node = .text run → IsCondensed run.content)
    (opened : after.opened = parent.addChild node :: outer) (root : after.root = before.root) :
    after.Spaced whitespace := by
  have spacing := spaced.opened
  rw [given] at spacing
  obtain ⟨first, others⟩ := List.forall_mem_cons.mp spacing
  refine ⟨?_, root ▸ spaced.root⟩
  rw [opened]
  exact List.forall_mem_cons.mpr ⟨first.addLeaf leaf apart condensed, others⟩

theorem writtenText_isCondensed (condenses : settings.whitespace = .condense) (parent : Element)
    (raw : String) : IsCondensed (writtenText settings parent false raw) := by
  unfold writtenText
  simp only [condenses]
  exact condense_isCondensed false _

theorem Spaced.text (spaced : before.Spaced settings.whitespace)
    (flowing : before.isPreformatted = false) (source raw : String) (span : Span) :
    (before.text settings source raw span).Spaced settings.whitespace := by
  have reads := text_reads settings source raw span before
  generalize before.text settings source raw span = after at reads ⊢
  cases reads with
  | leftOut diagnostics leaves => exact ⟨spaced.opened, spaced.root⟩
  | added diagnostics given stays =>
    refine spaced.addLeaf given (fun _ same => Node.noConfusion same) ?_ ?_ rfl rfl
    · rintro last held ⟨blank, single⟩
      refine stays (.inr ⟨eq_of_beq single, ?_⟩)
      rw [Option.mem_def.mp held]
      exact blank
    · rintro condenses run same
      cases same
      unfold addedText
      rw [flowing]
      exact writtenText_isCondensed condenses _ raw

theorem Spaced.comment (spaced : before.Spaced whitespace) (content : String) (span : Span) :
    (before.comment settings content span).Spaced whitespace := by
  unfold Builder.comment
  split
  · unfold updateParent
    split
    · exact ⟨spaced.opened, spaced.root⟩
    · next parent outer given =>
      refine spaced.addLeaf given ?_ ?_ ?_ rfl rfl
      · rintro _ ⟨⟩
      · exact fun _ _ both => Bool.noConfusion both.2
      · rintro _ _ ⟨⟩
  · exact spaced

theorem Spaced.move (spaced : before.Spaced settings.whitespace)
    (flowing : before.isPreformatted = false) (move : Move settings source opens before after) :
    after.Spaced settings.whitespace := by
  cases move with
  | report diagnostics => exact ⟨spaced.opened, spaced.root⟩
  | text raw span => exact spaced.text flowing source raw span
  | comment content span => exact spaced.comment content span
  | enter named allowed attributes span reported =>
    exact ⟨List.forall_mem_cons.mpr ⟨.fresh _, spaced.opened⟩, spaced.root⟩
  | lineBreak span =>
    have counted : Spaced settings.whitespace { before with nextId := before.nextId + 1 } :=
      ⟨spaced.opened, spaced.root⟩
    exact counted.close (by exact flowing) (.fresh _)
  | close given span =>
    rename_i element outer
    have opened := spaced.opened
    rw [given] at opened
    obtain ⟨spacing, outerSpacing⟩ := List.forall_mem_cons.mp opened
    have popped : Spaced settings.whitespace { before with opened := outer } :=
      ⟨outerSpacing, spaced.root⟩
    exact popped.close (by exact flowing) ⟨spacing.spaced, spacing.below.children, spacing.below.branches⟩

end Moves

end Builder

/-- Where no element is preformatted, all children of a document are spaced. -/
theorem parse_isSpaced (settings : Settings) (source : String)
    (flowing : ∀ token ∈ scan source, ∀ tag ∈ token.opened?,
      settings.platform.isPreformatted tag = false) :
    ∀ root ∈ (Document.parse settings source).1.root,
      root.Throughout (Element.IsSpaced settings.whitespace) := by
  obtain ⟨final, moves, same⟩ := parse_moves flowing
  have start : Builder.initial.Spaced settings.whitespace :=
    ⟨fun _ held => (by cases held), fun _ held => by cases held⟩
  have spaced := moves.keep
    (fun builder => builder.isPreformatted = false ∧ builder.Spaced settings.whitespace)
    (fun _ _ move both => ⟨move.flowing (fun _ ordinary => ordinary) both.1, both.2.move both.1 move⟩)
    ⟨rfl, start⟩
  rw [same]
  exact spaced.2.root

def condensing : Overlay := { Overlay.empty with whitespace := some .condense }

/-- A comment and a branch between spaces, and runs of blanks. -/
def airySource : String :=
  "<div> <b>a\n  b</b> <!-- c --> <i v-if=\"d\"></i> <i v-else> e\t</i> </div>"

theorem airySource_isSpaced :
    let settings := Web.settings.overlaid condensing
    (∀ token ∈ scan airySource, ∀ tag ∈ token.opened?,
      settings.platform.isPreformatted tag = false) ∧
      (Document.parse settings airySource).1.root.map
        (fun root => root.children.map Node.isBlankSpace) = some [false, true, false] ∧
      ∀ root ∈ (Document.parse settings airySource).1.root,
        root.Throughout (Element.IsSpaced settings.whitespace) := by
  intro settings
  have flowing : ∀ token ∈ scan airySource, ∀ tag ∈ token.opened?,
      settings.platform.isPreformatted tag = false := by
    decide +kernel
  exact ⟨flowing, by decide +kernel, parse_isSpaced settings airySource flowing⟩

end Templating.Template
