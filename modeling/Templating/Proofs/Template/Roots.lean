import Templating.Proofs.Template.Lossless
import Templating.Proofs.Template.Steps
/-!
# Roots

What cannot be a root is reported: an outlet, a transparent element, and a loop.
Where nothing is reported, the root is one element, whichever of its branches is
chosen.
-/
set_option autoImplicit false

namespace Templating.Template

open Templating.Text Templating.Data Templating.Markup Templating.Rendering

/-- The element is neither an outlet nor transparent, and is not repeated. -/
structure Head.IsSingle (head : Head) : Prop where
  noOutlet : head.tag ≠ "slot"
  solid : head.tag ≠ "template"
  unrepeated : head.loop = none

theorem errorsOf_rootDiagnostics (head : Head) :
    errorsOf (rootDiagnostics head) = rootDiagnostics head := by
  unfold rootDiagnostics
  rw [errorsOf_append]
  congr 1 <;> split <;> rfl

theorem rootDiagnostics_eq_nil {head : Head} (fine : rootDiagnostics head = []) : head.IsSingle := by
  obtain ⟨tag, loop⟩ := List.append_eq_nil_iff.mp fine
  have named : ¬(head.tag == "slot" || head.tag == "template") = true := fun given => by
    rw [if_pos given] at tag
    cases tag
  have once : ¬head.loop.isSome = true := fun given => by
    rw [if_pos given] at loop
    cases loop
  simp only [Bool.or_eq_true, beq_iff_eq, not_or] at named
  exact ⟨named.1, named.2, Option.not_isSome_iff_eq_none.mp once⟩

/-- The root is single, and so are the blocks of its branches, which have no
branches of their own. -/
structure Element.IsSoleRoot (root : Element) : Prop where
  own : root.head.IsSingle
  blocks : ∀ branch ∈ root.branches, branch.block.head.IsSingle ∧ branch.block.branches = []

namespace Builder

/-- What has been read is a sole root, or can become one. -/
structure Rooted (builder : Builder) : Prop where
  root : ∀ root ∈ builder.root, root.IsSoleRoot
  outermost : builder.root = none → ∀ element ∈ builder.opened.getLast?, element.head.IsSingle
  branchless : ∀ element ∈ builder.opened, element.branches = []

theorem Rooted.ofParent {builder : Builder} (rooted : builder.Rooted) {parent changed : Element}
    {outer : List Element} (given : builder.opened = parent :: outer) {after : Builder}
    (opened : after.opened = changed :: outer) (root : after.root = builder.root)
    (head : changed.head = parent.head) (branches : changed.branches = parent.branches) :
    after.Rooted := by
  obtain ⟨finished, outermost, branchless⟩ := rooted
  rw [given] at outermost branchless
  obtain ⟨first, others⟩ := List.forall_mem_cons.mp branchless
  refine ⟨root ▸ finished, fun none element held => ?_, ?_⟩
  · rw [root] at none
    rw [opened] at held
    cases outer with
    | nil =>
      cases held
      exact head ▸ outermost none parent rfl
    | cons next rest => exact outermost none element held
  · rw [opened]
    exact List.forall_mem_cons.mpr ⟨branches.trans first, others⟩

section Settings

variable {settings : Settings}

structure KeepsSingle (settings : Settings) : Prop extends KeepsPlace settings where
  loop : ∀ extension ∈ settings.extensions, extension.Preserves Head.loop

variable (keeps : KeepsSingle settings)

theorem place_rooted {builder : Builder} {element : Element} (rooted : builder.Rooted)
    (unbranched : element.branches = [])
    (single : builder.opened = [] → builder.root = none → element.head.IsSingle)
    (clean : (builder.place element).IsClean) : (builder.place element).Rooted := by
  unfold place at clean ⊢
  cases given : builder.opened with
  | cons parent outer =>
    simp only
    split
    · exact rooted
    · split
      · obtain ⟨head, branches⟩ := attachBranch_parent parent element
        exact rooted.ofParent given rfl rfl head branches
      · exact rooted.ofParent given rfl rfl rfl rfl
  | nil =>
    rw [given] at clean
    cases held : builder.root with
    | none =>
      have here := single given held
      refine ⟨fun root same => ?_, (fun impossible => by cases impossible), ?_⟩
      · cases same
        exact ⟨here, fun branch inside => by rw [unbranched] at inside; cases inside⟩
      · exact fun _ held => by cases held
    | some root =>
      rw [held] at clean
      simp only at clean ⊢
      split at clean
      · next joins =>
        rw [if_pos joins]
        obtain ⟨-, fine⟩ := isClean_report.mp clean
        rw [errorsOf_rootDiagnostics] at fine
        obtain ⟨noOutlet, solid, unrepeated⟩ := rootDiagnostics_eq_nil fine
        refine ⟨fun joined same => ?_, (fun impossible => by cases impossible), ?_⟩
        · cases same
          obtain ⟨own, blocks⟩ := rooted.root root held
          refine ⟨own, List.forall_mem_append.mpr ⟨blocks, List.forall_mem_singleton.mpr ?_⟩⟩
          exact ⟨⟨noOutlet, solid, unrepeated⟩, unbranched⟩
        · exact fun _ held => by cases held
      · exact absurd clean (unclean_errorAt _ _ _)

include keeps

theorem close_rooted {builder : Builder} {element : Element} (rooted : builder.Rooted)
    (unbranched : element.branches = [])
    (single : builder.opened = [] → builder.root = none → element.head.IsSingle)
    (clean : (builder.close settings element).IsClean) : (builder.close settings element).Rooted := by
  unfold close at clean ⊢
  simp only at clean ⊢
  have same : (if builder.isVerbatim then (element.head, [])
        else element.head.complete settings).1.tag = element.head.tag ∧
      (if builder.isVerbatim then (element.head, [])
        else element.head.complete settings).1.loop = element.head.loop := by
    split
    · exact ⟨rfl, rfl⟩
    · exact ⟨complete_preserves (fun leaves => leaves.tag) keeps.tag element.head,
        complete_preserves (fun leaves => leaves.loop) keeps.loop element.head⟩
  generalize (if builder.isVerbatim then (element.head, [])
    else element.head.complete settings) = final at same clean ⊢
  have reported : (builder.report final.2).Rooted :=
    ⟨rooted.root, rooted.outermost, rooted.branchless⟩
  have placed := place_rooted reported (by exact unbranched) (fun outermost first => by
    obtain ⟨noOutlet, solid, unrepeated⟩ := single outermost first
    exact ⟨same.1 ▸ noOutlet, same.1 ▸ solid, same.2 ▸ unrepeated⟩) clean
  exact ⟨placed.root, placed.outermost, placed.branchless⟩

theorem Rooted.step {before after : Builder} (rooted : before.IsClean → before.Rooted)
    (step : Step settings before after) (clean : after.IsClean) : after.Rooted := by
  cases step with
  | report diagnostics =>
    obtain ⟨root, outermost, branchless⟩ := rooted (isClean_report.mp clean).1
    exact ⟨root, outermost, branchless⟩
  | spend =>
    obtain ⟨root, outermost, branchless⟩ := rooted clean
    exact ⟨root, outermost, branchless⟩
  | text given content segments span plain => exact (rooted clean).ofParent given rfl rfl rfl rfl
  | comment given content span => exact (rooted clean).ofParent given rfl rfl rfl rfl
  | enter named attributes span reported =>
    obtain ⟨root, outermost, branchless⟩ := rooted clean
    refine ⟨root, fun none element held => ?_, List.forall_mem_cons.mpr ⟨rfl, branchless⟩⟩
    cases given : before.opened with
    | nil =>
      simp only [opening, given, List.getLast?_singleton] at held
      cases held
      refine rootDiagnostics_eq_nil (List.eq_nil_iff_forall_not_mem.mpr fun diagnostic found => ?_)
      have isError : diagnostic ∈ errorsOf (rootDiagnostics _) := errorsOf_rootDiagnostics _ ▸ found
      have reportedToo := List.mem_filter.mpr
        ⟨reported given none found, (List.mem_filter.mp isError).2⟩
      rw [show before.diagnostics.filter Diagnostic.isError = [] from clean] at reportedToo
      cases reportedToo
    | cons parent outer =>
      simp only [opening, given, List.getLast?_cons_cons] at held
      exact outermost none element (given ▸ held)
  | lineBreak span =>
    obtain ⟨root, outermost, branchless⟩ := rooted (close_reached keeps.toKeepsPlace clean).1
    refine close_rooted keeps ⟨root, outermost, branchless⟩ rfl (fun _ _ => ?_) clean
    exact ⟨(by decide : "br" ≠ "slot"), (by decide : "br" ≠ "template"), rfl⟩
  | close given span =>
    rename_i element outer
    have cleanBefore := (close_reached keeps.toKeepsPlace clean).1
    obtain ⟨root, outermost, branchless⟩ := rooted cleanBefore
    rw [given] at outermost branchless
    obtain ⟨first, others⟩ := List.forall_mem_cons.mp branchless
    refine close_rooted keeps ⟨root, fun none inside held => ?_, others⟩ first (fun last none => ?_) clean
    · cases outer with
      | nil => cases held
      | cons next rest => exact outermost none inside held
    · cases last
      obtain ⟨noOutlet, solid, unrepeated⟩ := outermost none element rfl
      exact ⟨noOutlet, solid, unrepeated⟩

end Settings

end Builder

/-- Where reading reports no error, the root is one element, whichever of its
branches is chosen. -/
theorem parse_isSoleRoot {base : Settings} (known : IsBase base) {overlay : Overlay}
    (unextended : overlay.extensions = []) (source : String)
    (clean : errorsOf (Document.parse (base.overlaid overlay) source).2 = []) :
    ∀ root ∈ (Document.parse (base.overlaid overlay) source).1.root, root.IsSoleRoot := by
  have keeps : Builder.KeepsSingle (base.overlaid overlay) :=
    ⟨base_keepsPlace known unextended,
      base_preserves known unextended (fun leaves => leaves.loop) fun _ _ => rfl⟩
  have start : Builder.initial.Rooted :=
    ⟨(fun _ held => by cases held), (fun _ _ held => by cases held), fun _ held => by cases held⟩
  obtain ⟨final, steps, same⟩ := parse_steps (base.overlaid overlay) source
  have kept := steps.keep (fun builder => builder.IsClean → builder.Rooted)
    (fun _ _ step rooted => Builder.Rooted.step keeps rooted step) fun _ => start
  rw [same] at clean ⊢
  exact (kept clean).root

end Templating.Template
