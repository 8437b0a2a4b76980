import Templating.Proofs.Template.Chains
import Templating.Proofs.Translation.Written
/-!
# Chains of branches

The branches of an element are tried one after another, and what has no condition ends the
chain: branches behind it are never rendered.  Reading lets them be, so that a chain says
more than what is written of it, without a report.
-/
set_option autoImplicit false

namespace Templating.Rendering

open Templating.Text Templating.Markup Templating.Template

/-- The branches up to the first one without a condition. -/
def reachable : List Branch → List Branch
  | [] => []
  | ⟨some condition, block⟩ :: rest => ⟨some condition, block⟩ :: reachable rest
  | ⟨none, block⟩ :: _ => [⟨none, block⟩]

theorem reachable_eq_iff (branches : List Branch) :
    reachable branches = branches ↔ ∀ branch ∈ branches.dropLast, branch.condition.isSome = true := by
  induction branches with
  | nil => simp [reachable]
  | cons branch rest ih =>
    obtain ⟨condition, block⟩ := branch
    cases rest with
    | nil => cases condition <;> simp [reachable]
    | cons next others =>
      rw [List.dropLast_cons_of_ne_nil (List.cons_ne_nil _ _), List.forall_mem_cons, ← ih]
      cases condition with
      | none => simp [reachable]
      | some condition => simp [reachable]

section Writing

variable (context : Context)

theorem writeBranches_reachable (loops : List (Option String)) (branches : List Branch) :
    writeBranches loops (branchWriters context (reachable branches)) =
      writeBranches loops (branchWriters context branches) := by
  induction branches with
  | nil => rfl
  | cons branch rest ih =>
    obtain ⟨condition, block⟩ := branch
    cases condition with
    | none => rfl
    | some condition =>
      rw [reachable, branchWriters, branchWriters, writeBranches, writeBranches, ih]

/-- The source of an element says nothing of branches that are not reachable. -/
theorem writeElement_reachable (element : Element) :
    writeElement context { element with branches := reachable element.branches } =
      writeElement context element := by
  obtain ⟨head, children, branches⟩ := element
  have layer (layer : Layer) (inner : Writer) :
      layer.write context head (branchWriters context (reachable branches)) inner =
        layer.write context head (branchWriters context branches) inner := by
    cases layer with
    | choose =>
      funext loops
      simp only [Layer.write, writeBranches_reachable]
    | hoist => rfl
    | once => rfl
    | loop => rfl
  rw [writeElement, writeElement]
  simp only [layer]

end Writing

/-- A tag that asks for the element before it becomes a branch of one that has a condition,
is reported as left out, or becomes the root.  Only elements with a condition have branches,
and what is written of them are those up to the first without a condition, which are all
just where no other is behind it. -/
theorem parse_chains {settings : Settings} (keeps : Builder.KeepsChains settings) (source : String) :
    (∀ before tag attributes selfClosing span behind,
      scan source = before ++ .startTag tag attributes selfClosing span :: behind →
      ContinuesChain attributes →
        let outside :=
          (before.foldl (Builder.token settings source) .initial).closeBefore settings tag span
        outside.isVerbatim = false →
          Builder.Fate (Builder.history settings source) (outside.opened.map Element.head)
            outside.nextId span.start (Document.parse settings source).1.root
            (Document.parse settings source).2) ∧
      ∀ root ∈ (Document.parse settings source).1.root, ∀ above element, Lineage root above element →
        (element.branches ≠ [] → element.head.condition.isSome = true) ∧
          (∀ context, writeElement context { element with branches := reachable element.branches } =
            writeElement context element) ∧
          (reachable element.branches = element.branches ↔ EndsChain element) := by
  constructor
  · intro before tag attributes selfClosing span behind tokens continues
    exact parse_branch_fate keeps tokens continues
  · intro root held above element lineage
    have placed := parse_placed settings source root held above element lineage
    exact ⟨placed.condition, fun context => writeElement_reachable context element,
      reachable_eq_iff element.branches⟩

theorem base_keepsChains {base : Settings} (known : IsBase base) {overlay : Overlay}
    (unextended : overlay.extensions = []) : Builder.KeepsChains (base.overlaid overlay) where
  toKeepsIdentity := base_keepsIdentity known unextended
  condition := base_preserves known unextended (fun leaves => leaves.condition) fun _ _ => rfl
  isBranch := by
    refine base_preserves known unextended (fun leaves => ?_) fun _ _ => rfl
    rw [Head.isBranch, leaves.branchCondition, leaves.isElse, Head.isBranch]
  isForbidden := base_preserves known unextended (fun leaves => leaves.isForbidden) fun _ _ => rfl

/-- The last branch is behind one that ends the chain. -/
def doubleElse : String := "<div><p v-if=\"a\"></p><p v-else>b</p><p v-else>c</p></div>"

theorem doubleElse_chains :
    let settings := Web.settings.overlaid .empty
    let before := (scan doubleElse).take 6
    let outside :=
      (before.foldl (Builder.token settings doubleElse) .initial).closeBefore settings "p" ⟨36, 46⟩
    Builder.KeepsChains settings ∧ ContinuesChain [⟨"v-else", none, ⟨39, 45⟩⟩] ∧
      outside.isVerbatim = false ∧
      Builder.Fate (Builder.history settings doubleElse) (outside.opened.map Element.head)
        outside.nextId 36 (Document.parse settings doubleElse).1.root
        (Document.parse settings doubleElse).2 ∧
      ∀ root ∈ (Document.parse settings doubleElse).1.root, ∀ above element,
        Lineage root above element →
          (element.branches ≠ [] → element.head.condition.isSome = true) ∧
            (∀ context,
              writeElement context { element with branches := reachable element.branches } =
                writeElement context element) ∧
            (reachable element.branches = element.branches ↔ EndsChain element) := by
  have keeps : Builder.KeepsChains (Web.settings.overlaid .empty) := base_keepsChains (.inl rfl) rfl
  obtain ⟨fates, chains⟩ := parse_chains keeps doubleElse
  have tokens : scan doubleElse = (scan doubleElse).take 6 ++
      .startTag "p" [⟨"v-else", none, ⟨39, 45⟩⟩] false ⟨36, 46⟩ :: (scan doubleElse).drop 7 := by
    decide +kernel
  have continues : ContinuesChain [⟨"v-else", none, ⟨39, 45⟩⟩] := by decide
  have plain : ((((scan doubleElse).take 6).foldl
      (Builder.token (Web.settings.overlaid .empty) doubleElse) .initial).closeBefore
        (Web.settings.overlaid .empty) "p" ⟨36, 46⟩).isVerbatim = false := by
    decide +kernel
  exact ⟨keeps, continues, plain, fates _ _ _ _ _ _ tokens continues plain, chains⟩

/-- Nothing is before the branch, which is the root. -/
def lonelyElse : String := "<p v-else></p>"

theorem not_hasBranch {root : Element}
    (unbranched : root.Throughout fun element => element.branches.isEmpty = true) (id : Nat) :
    ¬ root.HasBranch id := by
  rintro ⟨above, element, lineage, -, branch, held, -⟩
  have none := List.isEmpty_iff.mp (unbranched above element lineage)
  rw [none] at held
  cases held

/-- Neither a branch with nothing before it nor one behind the end of its chain is
reported. -/
theorem elses_unreported :
    let settings := Web.settings.overlaid .empty
    let lonely := compile settings lonelyElse
    let double := compile settings doubleElse
    (scan lonelyElse).head? = some (.startTag "p" [⟨"v-else", none, ⟨3, 9⟩⟩] false ⟨0, 10⟩) ∧
      ContinuesChain [⟨"v-else", none, ⟨3, 9⟩⟩] ∧ lonely.diagnostics = [] ∧
      (∀ root ∈ lonely.document.root, root.head.isElse = true ∧ ¬ root.HasBranch root.head.id) ∧
      double.diagnostics = [] ∧ ∃ root ∈ double.document.root, ¬ root.Throughout EndsChain := by
  have lonely : ∀ root ∈ (compile (Web.settings.overlaid .empty) lonelyElse).document.root,
      root.head.isElse = true ∧ root.Throughout fun element => element.branches.isEmpty = true := by
    decide +kernel
  refine ⟨by decide +kernel, by decide, by decide +kernel, fun root held => ?_, by decide +kernel,
    by decide +kernel⟩
  obtain ⟨isElse, unbranched⟩ := lonely root held
  exact ⟨isElse, not_hasBranch unbranched root.head.id⟩

end Templating.Rendering
