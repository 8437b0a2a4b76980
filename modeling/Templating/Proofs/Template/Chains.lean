import Templating.Proofs.Template.Lineage
import Templating.Proofs.Template.Order
/-!
# What becomes of branches

A branch looks for the element whose condition it continues.  As long as it is open nothing
is decided.  Where it closes it joins the element before it, if that one has a condition;
or it is left out with a report; or it becomes the root, where there is none yet and
nobody asks.  What has joined stays, unless an element around it is left out.
-/
set_option autoImplicit false

namespace Templating.Template

open Templating.Text Templating.Data Templating.Markup Templating.Rendering

/-! ## Branches in trees -/

/-- Somewhere in the tree an element with a condition has a branch of that number. -/
def Element.HasBranch (id : Nat) (tree : Element) : Prop :=
  ∃ above element, Lineage tree above element ∧ element.head.condition.isSome = true ∧
    ∃ branch ∈ element.branches, branch.block.head.id = id

/-- The later tree has the head of the former and all its branches, or more. -/
structure Element.Grows (before after : Element) : Prop where
  head : after.head = before.head
  branches : ∀ id, before.HasBranch id → after.HasBranch id

section Trees

variable {id : Nat} {tree parent child element branch before after : Element}

theorem Element.HasBranch.own {branch : Branch} (held : branch ∈ tree.branches)
    (conditional : tree.head.condition.isSome = true) : tree.HasBranch branch.block.head.id :=
  ⟨[], tree, .here tree, conditional, branch, held, rfl⟩

theorem Element.HasBranch.inChild (held : .element child ∈ parent.children) (has : child.HasBranch id) :
    parent.HasBranch id := by
  obtain ⟨above, element, lineage, rest⟩ := has
  exact ⟨parent :: above, element, .child held lineage, rest⟩

theorem Element.HasBranch.inBranch {branch : Branch} (held : branch ∈ parent.branches)
    (has : branch.block.HasBranch id) : parent.HasBranch id := by
  obtain ⟨above, element, lineage, rest⟩ := has
  exact ⟨parent :: above, element, .branch held lineage, rest⟩

theorem Element.HasBranch.mono (has : before.HasBranch id)
    (condition : after.head.condition = before.head.condition)
    (children : ∀ child, .element child ∈ before.children →
      ∃ other, .element other ∈ after.children ∧ ∀ id, child.HasBranch id → other.HasBranch id)
    (branches : before.branches ⊆ after.branches) : after.HasBranch id := by
  obtain ⟨above, element, lineage, conditional, branch, held, rfl⟩ := has
  cases lineage with
  | here => exact .own (branches held) (condition ▸ conditional)
  | child inside lineage =>
    obtain ⟨other, there, more⟩ := children _ inside
    exact .inChild there (more _ ⟨_, element, lineage, conditional, branch, held, rfl⟩)
  | branch inside lineage =>
    exact .inBranch (branches inside) ⟨_, element, lineage, conditional, branch, held, rfl⟩

theorem Element.Grows.refl (element : Element) : element.Grows element := ⟨rfl, fun _ has => has⟩

theorem Element.Grows.trans (first : before.Grows element) (second : element.Grows after) :
    before.Grows after :=
  ⟨second.head.trans first.head, fun id has => second.branches id (first.branches id has)⟩

theorem addChild_grows (parent : Element) (node : Node) : parent.Grows (parent.addChild node) where
  head := rfl
  branches := by
    intro id has
    refine has.mono rfl (fun child held => ⟨child, List.mem_append_left _ held, fun _ has => has⟩) ?_
    exact List.Subset.refl _

theorem addBranch_grows (element branch : Element) : element.Grows (element.addBranch branch) where
  head := rfl
  branches := by
    intro id has
    refine has.mono rfl (fun child held => ⟨child, held, fun _ has => has⟩) ?_
    exact List.subset_append_left _ _

theorem addBranch_hasBranch (has : branch.HasBranch id) : (element.addBranch branch).HasBranch id := by
  have block : branch.asBranch.block.HasBranch id :=
    has.mono rfl (fun child held => ⟨child, held, fun _ has => has⟩) (List.Subset.refl _)
  exact .inBranch (List.mem_append_right _ (List.mem_singleton_self _)) block

theorem addBranch_joins (conditional : element.head.condition.isSome = true) :
    (element.addBranch branch).HasBranch branch.head.id := by
  have held : branch.asBranch ∈ (element.addBranch branch).branches :=
    List.mem_append_right _ (List.mem_singleton_self _)
  exact .own held conditional

theorem mem_dropToElement {nodes : List Node} (held : .element child ∈ nodes) :
    .element child ∈ (dropToElement nodes).1 := by
  induction nodes with
  | nil => cases held
  | cons node earlier ih =>
    cases node with
    | element => exact held
    | text run => exact ih ((List.mem_cons.mp held).resolve_left (fun same => nomatch same))
    | comment comment => exact ih ((List.mem_cons.mp held).resolve_left (fun same => nomatch same))

/-- A branch joins the last element of the parent, or is reported as stray. -/
theorem attachBranch_outcome (parent branch : Element) :
    parent.Grows (attachBranch parent branch).1 ∧
      (strayBranch branch.head ∈ (attachBranch parent branch).2 ∨
        (attachBranch parent branch).1.HasBranch branch.head.id ∧
          ∀ id, branch.HasBranch id → (attachBranch parent branch).1.HasBranch id) := by
  have kept (child : Element) (held : .element child ∈ parent.children) :
      .element child ∈ (dropToElement parent.children.reverse).1 :=
    mem_dropToElement (List.mem_reverse.mpr held)
  unfold attachBranch
  simp only
  generalize (dropToElement parent.children.reverse).2 = diagnostics
  generalize (dropToElement parent.children.reverse).1 = backwards at kept ⊢
  have same : parent.Grows { parent with children := backwards.reverse } := by
    refine ⟨rfl, fun id has => has.mono rfl (fun child held => ?_) (List.Subset.refl _)⟩
    exact ⟨child, List.mem_reverse.mpr (kept child held), fun _ has => has⟩
  have stray : strayBranch branch.head ∈ diagnostics ++ [strayBranch branch.head] :=
    List.mem_append_right _ (List.mem_singleton_self _)
  split
  · next previous earlier =>
    split
    · next conditional =>
      have joined : .element (previous.addBranch branch) ∈
          (Node.element (previous.addBranch branch) :: earlier).reverse :=
        List.mem_reverse.mpr List.mem_cons_self
      refine ⟨⟨rfl, fun id has => has.mono rfl (fun child held => ?_) (List.Subset.refl _)⟩, .inr ⟨?_, ?_⟩⟩
      · rcases List.mem_cons.mp (kept child held) with last | before
        · cases last
          exact ⟨_, joined, (addBranch_grows previous branch).branches⟩
        · exact ⟨child, List.mem_reverse.mpr (List.mem_cons_of_mem _ before), fun _ has => has⟩
      · exact .inChild joined (addBranch_joins conditional)
      · exact fun id has => .inChild joined (addBranch_hasBranch has)
    · exact ⟨same, .inl stray⟩
  · exact ⟨same, .inl stray⟩

end Trees

/-! ## Reports about elements that are left out -/

/-- The element at which this is reported is no part of the document. -/
def Problem.leavesOut : Problem → Bool
  | .severalRoots => true
  | .strayBranch _ _ => true
  | .forbiddenTag _ => true
  | _ => false

def Rejected (diagnostics : List Diagnostic) (start : Nat) : Prop :=
  ∃ diagnostic ∈ diagnostics, diagnostic.isError = true ∧ diagnostic.problem.leavesOut = true ∧
    ∃ span ∈ diagnostic.span, span.start = start

theorem Rejected.mono {diagnostics others : List Diagnostic} {start : Nat}
    (rejected : Rejected diagnostics start) (more : diagnostics ⊆ others) : Rejected others start := by
  obtain ⟨diagnostic, held, rest⟩ := rejected
  exact ⟨diagnostic, more held, rest⟩

theorem rejected_of_mem {diagnostics : List Diagnostic} {span : Span} {problem : Problem}
    (held : .errorAt span problem ∈ diagnostics) (leavesOut : problem.leavesOut = true) :
    Rejected diagnostics span.start :=
  ⟨_, held, rfl, leavesOut, span, rfl, rfl⟩

namespace Builder

/-- The root has the head it had and all its branches, and all reports are still there. -/
structure Later (before after : Builder) : Prop where
  root : ∀ tree ∈ before.root, ∃ grown ∈ after.root, tree.Grows grown
  reports : before.diagnostics ⊆ after.diagnostics

structure Grows (before after : Builder) : Prop extends Later before after where
  opened : List.Forall₂ Element.Grows before.opened after.opened

/-- Where an element that has closed is found: in the innermost element that is open or
in the root, with all its branches, unless it is left out.  A branch has joined an element
with a condition there, or is the root. -/
inductive Found (element : Element) (after : Builder) : Prop where
  | rejected (report : Rejected after.diagnostics element.head.span.start)
  | inside {parent : Element} {outer : List Element} (given : after.opened = parent :: outer)
      (has : ∀ id, element.HasBranch id → parent.HasBranch id)
      (joined : element.head.isBranch = true → parent.HasBranch element.head.id)
  | root {tree : Element} (given : after.root = some tree)
      (has : ∀ id, element.HasBranch id → tree.HasBranch id)
      (joined : tree.head.id = element.head.id ∨ tree.HasBranch element.head.id)

/-- Open elements that have no place in a template have been reported. -/
def Noted (builder : Builder) : Prop :=
  ∀ element ∈ builder.opened, element.head.isForbidden = true →
    Rejected builder.diagnostics element.head.span.start

section Growing

variable {before middle after builder : Builder} {element : Element}

theorem Later.refl (builder : Builder) : builder.Later builder :=
  ⟨fun tree held => ⟨tree, held, .refl tree⟩, List.Subset.refl _⟩

theorem Later.trans (first : before.Later middle) (second : middle.Later after) :
    before.Later after := by
  refine ⟨fun tree held => ?_, List.Subset.trans first.reports second.reports⟩
  obtain ⟨grown, there, grows⟩ := first.root tree held
  obtain ⟨final, last, more⟩ := second.root grown there
  exact ⟨final, last, grows.trans more⟩

theorem forall₂_grows_refl (elements : List Element) : List.Forall₂ Element.Grows elements elements := by
  induction elements with
  | nil => exact .nil
  | cons element rest ih => exact .cons (.refl element) ih

theorem Grows.refl (builder : Builder) : builder.Grows builder :=
  ⟨.refl builder, forall₂_grows_refl builder.opened⟩

theorem Grows.changed {parent changed : Element} {outer : List Element}
    (given : before.opened = parent :: outer) (opened : after.opened = changed :: outer)
    (grows : parent.Grows changed) (root : after.root = before.root)
    (reports : before.diagnostics ⊆ after.diagnostics) : before.Grows after where
  root := by
    rw [root]
    exact (Later.refl before).root
  reports := reports
  opened := by
    rw [given, opened]
    exact .cons grows (forall₂_grows_refl outer)

theorem Grows.heads (grows : before.Grows after) :
    after.opened.map Element.head = before.opened.map Element.head := by
  have same {elements others : List Element} (opened : List.Forall₂ Element.Grows elements others) :
      others.map Element.head = elements.map Element.head := by
    induction opened with
    | nil => rfl
    | cons first _ ih => rw [List.map_cons, List.map_cons, first.head, ih]
  exact same grows.opened

theorem place_grows (builder : Builder) (element : Element) : builder.Grows (builder.place element) := by
  unfold place
  cases given : builder.opened with
  | cons parent outer =>
    simp only
    split
    · exact .refl builder
    · split
      · exact .changed given rfl (attachBranch_outcome parent element).1 rfl (List.subset_append_left _ _)
      · exact .changed given rfl (addChild_grows parent _) rfl (List.Subset.refl _)
  | nil =>
    have opened : List.Forall₂ Element.Grows builder.opened [] := by
      rw [given]
      exact .nil
    simp only
    split
    · next none =>
      refine { root := fun tree held => ?_, reports := List.Subset.refl _, opened }
      rw [none] at held
      cases held
    · next root held =>
      split
      · refine { root := fun tree here => ?_, reports := List.subset_append_left _ _, opened }
        rw [held] at here
        cases here
        exact ⟨_, rfl, addBranch_grows root element⟩
      · exact { Later.refl builder with
                reports := List.subset_append_left _ _, opened := forall₂_grows_refl _ }

theorem place_found
    (noted : element.head.isForbidden = true → Rejected builder.diagnostics element.head.span.start) :
    Found element (builder.place element) := by
  unfold place
  cases given : builder.opened with
  | cons parent outer =>
    simp only
    split
    · next forbidden => exact .rejected (noted forbidden)
    · split
      · obtain ⟨-, stray | ⟨joined, has⟩⟩ := attachBranch_outcome parent element
        · exact .rejected (rejected_of_mem (List.mem_append_right _ stray) rfl)
        · exact .inside rfl has fun _ => joined
      · next plain =>
        have held : .element element ∈ (parent.addChild (.element element)).children :=
          List.mem_append_right _ (List.mem_singleton_self _)
        exact .inside rfl (fun id has => .inChild held has) fun isBranch => absurd isBranch plain
  | nil =>
    simp only
    split
    · exact .root rfl (fun id has => has) (.inl rfl)
    · next root held =>
      split
      · next joins =>
        simp only [Bool.and_eq_true] at joins
        exact .root rfl (fun id has => addBranch_hasBranch has) (.inr (addBranch_joins joins.1))
      · exact .rejected (rejected_of_mem (List.mem_append_right _ (List.mem_singleton_self _)) rfl)

theorem Found.ofClosed {closed : Element} (found : Found closed after)
    (id : closed.head.id = element.head.id) (start : closed.head.span.start = element.head.span.start)
    (isBranch : closed.head.isBranch = element.head.isBranch)
    (carries : ∀ id, element.HasBranch id → closed.HasBranch id) : Found element after := by
  cases found with
  | rejected report =>
    exact .rejected (start ▸ report)
  | inside given has joined =>
    refine .inside given (fun number inner => has number (carries number inner)) fun branch => ?_
    exact id ▸ joined (isBranch.trans branch)
  | root given has joined =>
    refine .root given (fun number inner => has number (carries number inner)) ?_
    exact id ▸ joined

end Growing

/-! ## Closing -/

/-- The rules that apply when an element closes leave its number, its span and its conditions,
and do not forbid it. -/
structure KeepsChains (settings : Settings) : Prop extends KeepsIdentity settings where
  condition : ∀ extension ∈ settings.extensions, extension.Preserves Head.condition
  isBranch : ∀ extension ∈ settings.extensions, extension.Preserves Head.isBranch
  isForbidden : ∀ extension ∈ settings.extensions, extension.Preserves Head.isForbidden

section Closing

variable {settings : Settings} (builder : Builder) (element : Element)

theorem close_grows : builder.Grows (builder.close settings element) := by
  obtain ⟨closed, diagnostics, -, same⟩ := close_eq settings builder element
  have placed := place_grows (builder.report diagnostics) closed
  rw [same]
  exact { root := placed.root, opened := placed.opened,
          reports := List.Subset.trans (List.subset_append_left _ _) placed.reports }

variable {builder element}

theorem close_found (keeps : KeepsChains settings)
    (noted : element.head.isForbidden = true → Rejected builder.diagnostics element.head.span.start) :
    Found element (builder.close settings element) := by
  obtain ⟨closed, diagnostics, closes, same⟩ := close_eq settings builder element
  have id := closes.field (fun leaves => leaves.id) keeps.number
  have span := closes.field (fun leaves => leaves.span) keeps.span
  have condition := closes.field (fun leaves => leaves.condition) keeps.condition
  have isForbidden := closes.field (fun leaves => leaves.isForbidden) keeps.isForbidden
  have isBranch : closed.head.isBranch = element.head.isBranch := by
    refine closes.field (fun leaves => ?_) keeps.isBranch
    rw [Head.isBranch, leaves.branchCondition, leaves.isElse, Head.isBranch]
  have carries (number : Nat) (has : element.HasBranch number) : closed.HasBranch number := by
    refine has.mono condition (fun child held => ?_) ?_
    · exact ⟨child, closes.elements child held, fun _ has => has⟩
    · rw [closes.branches]
      exact List.Subset.refl _
  have closing : Found closed ((builder.report diagnostics).place closed) := by
    refine place_found fun forbidden => ?_
    rw [span]
    exact (noted (isForbidden ▸ forbidden)).mono (List.subset_append_left _ diagnostics)
  have found := closing.ofClosed id (congrArg Span.start span) isBranch carries
  rw [same]
  cases found with
  | rejected report => exact .rejected report
  | inside given has joined => exact .inside given has joined
  | root given has joined => exact .root given has joined

end Closing

/-! ## Moves -/

/-- What a move does to the elements that are open: they stay, or one comes on top, or the
innermost one closes and comes to its place. -/
inductive Shift (before after : Builder) : Prop where
  | stay (grows : before.Grows after)
  | push {element : Element} (opened : after.opened = element :: before.opened)
      (later : before.Later after)
      (noted : element.head.isForbidden = true → Rejected after.diagnostics element.head.span.start)
  | pop {element : Element} {outer : List Element} (given : before.opened = element :: outer)
      (grows : Grows { before with opened := outer } after) (found : Found element after)

section Shift

variable {settings : Settings} {source : String} {first second : Moment} {before after : Builder}

theorem Quiet.grows (move : Quiet source first second) : first.builder.Grows second.builder := by
  cases move with
  | pass builder forward boundary => exact .refl builder
  | report position builder points =>
    exact { root := (Later.refl builder).root, opened := forall₂_grows_refl _,
            reports := List.subset_append_left _ _ }
  | spend position builder => exact { Grows.refl builder with }
  | text given content segments ahead plain =>
    exact .changed given rfl (addChild_grows _ _) rfl (List.Subset.refl _)
  | comment given content ahead =>
    exact .changed given rfl (addChild_grows _ _) rfl (List.Subset.refl _)

theorem Turn.shift (keeps : KeepsChains settings) (move : Turn settings source first second)
    (noted : first.builder.Noted) : Shift first.builder second.builder := by
  cases move with
  | @enter builder position tag named attributes span ahead items forbidden reported =>
    have kept := enter_keeps builder
      (builder.freshHead settings tag (distinctAttributes tag [] attributes).1 span)
    refine .push rfl { Later.refl builder with } fun isForbidden => ?_
    rw [kept.span]
    exact rejected_of_mem (forbidden (kept.isForbidden ▸ isForbidden)) rfl
  | @lineBreak builder position span ahead =>
    let counted : Builder := { builder with nextId := builder.nextId + 1 }
    let lineBreak : Element := ⟨Head.new builder.nextId "br" [] span, [], []⟩
    have closed : counted.Grows (counted.close settings lineBreak) := close_grows counted lineBreak
    exact .stay { closed with }
  | @close builder element outer given position stop stops =>
    let closed : Element :=
      { element with head := { element.head with span := ⟨element.head.span.start, stop⟩ } }
    let outside : Builder := { builder with opened := outer }
    have isNoted := noted element (by rw [given]; exact List.mem_cons_self)
    have found : Found closed (outside.close settings closed) := close_found keeps isNoted
    refine .pop given (close_grows outside closed) (found.ofClosed rfl rfl rfl fun id has => ?_)
    exact has.mono rfl (fun child held => ⟨child, held, fun _ has => has⟩) (List.Subset.refl _)

theorem Shift.later (shift : before.Shift after) : before.Later after := by
  cases shift with
  | stay grows => exact grows.toLater
  | push opened later noted => exact later
  | pop given grows found => exact { grows.toLater with }

theorem Noted.shift (noted : before.Noted) (shift : before.Shift after) : after.Noted := by
  -- Heads of open elements are what they were, and reports stay.
  have still {builder : Builder} (isNoted : builder.Noted) (grows : builder.Grows after) :
      after.Noted := by
    intro element held forbidden
    have head : element.head ∈ builder.opened.map Element.head :=
      grows.heads ▸ List.mem_map_of_mem held
    obtain ⟨original, there, same⟩ := List.mem_map.mp head
    rw [← same] at forbidden ⊢
    exact (isNoted original there forbidden).mono grows.reports
  cases shift with
  | stay grows => exact still noted grows
  | push opened later isNoted =>
    intro element held forbidden
    rw [opened] at held
    rcases List.mem_cons.mp held with rfl | inside
    · exact isNoted forbidden
    · exact (noted element inside forbidden).mono later.reports
  | @pop element outer given grows found =>
    refine still ?_ grows
    intro other held forbidden
    exact noted other (by rw [given]; exact List.mem_cons_of_mem _ held) forbidden

/-! ## From opening to the end -/

def IsOpen (around : List Head) (head : Head) (builder : Builder) : Prop :=
  ∃ depth, (builder.opened.map Element.head).drop depth = head :: around

/-- A branch of that number has joined an element with a condition, in the tree of an
element around it or of the root. -/
inductive Joined (around : List Head) (id : Nat) (builder : Builder) : Prop where
  | inside (depth : Nat) {tree : Element} {outer : List Element}
      (given : builder.opened.drop depth = tree :: outer)
      (within : (tree :: outer).map Element.head <:+ around) (has : tree.HasBranch id)
  | root {tree : Element} (given : builder.root = some tree) (has : tree.HasBranch id)

variable {around : List Head} {head : Head} {id : Nat}

theorem Joined.grow (joined : before.Joined around id) (grows : before.Grows after) :
    after.Joined around id := by
  cases joined with
  | inside depth given within has =>
    have dropped := List.forall₂_drop depth grows.opened
    rw [given] at dropped
    generalize left : after.opened.drop depth = rest at dropped
    cases dropped with
    | @cons _ grown _ others first behind =>
      refine .inside depth left ?_ (first.branches id has)
      have heads := congrArg (List.drop depth) grows.heads
      rw [← List.map_drop, ← List.map_drop, left, given] at heads
      rwa [heads]
  | root given has =>
    obtain ⟨grown, there, more⟩ := grows.root _ given
    exact .root there (more.branches id has)

theorem Joined.shift (joined : before.Joined around id) (shift : before.Shift after) :
    after.Joined around id ∨ ∃ outer ∈ around, Rejected after.diagnostics outer.span.start := by
  cases shift with
  | stay grows => exact .inl (joined.grow grows)
  | push opened later noted =>
    cases joined with
    | inside depth given within has =>
      refine .inl (.inside (depth + 1) ?_ within has)
      rw [opened]
      exact given
    | root given has =>
      obtain ⟨grown, there, more⟩ := later.root _ given
      exact .inl (.root there (more.branches id has))
  | @pop element outer given grows found =>
    cases joined with
    | root held has =>
      obtain ⟨grown, there, more⟩ := grows.root _ held
      exact .inl (.root there (more.branches id has))
    | inside depth held within has =>
      rw [given] at held
      cases depth with
      | succ depth =>
        have deeper : Joined around id { before with opened := outer } := .inside depth held within has
        exact .inl (deeper.grow grows)
      | zero =>
        cases held
        cases found with
        | rejected report => exact .inr ⟨element.head, within.subset List.mem_cons_self, report⟩
        | root there carried _ => exact .inl (.root there (carried id has))
        | @inside parent rest there carried _ =>
          refine .inl (.inside 0 there ?_ (carried id has))
          rw [← there, grows.heads]
          exact (List.suffix_cons element.head _).trans within

theorem IsOpen.grow (isOpen : before.IsOpen around head) (grows : before.Grows after) :
    after.IsOpen around head := by
  obtain ⟨depth, given⟩ := isOpen
  exact ⟨depth, by rw [grows.heads]; exact given⟩

theorem IsOpen.shift (isOpen : before.IsOpen around head) (isBranch : head.isBranch = true)
    (shift : before.Shift after) :
    after.IsOpen around head ∨ after.Joined around head.id ∨
      Rejected after.diagnostics head.span.start ∨
      ∃ root ∈ after.root, root.head.id = head.id := by
  have ⟨depth, given⟩ := isOpen
  cases shift with
  | stay grows => exact .inl (isOpen.grow grows)
  | push opened later noted => exact .inl ⟨depth + 1, by rw [opened]; exact given⟩
  | @pop element outer popped grows found =>
    rw [popped] at given
    cases depth with
    | succ depth => exact .inl ⟨depth, by rw [grows.heads]; exact given⟩
    | zero =>
      obtain ⟨rfl, heads⟩ := List.cons.inj given
      right
      cases found with
      | rejected report => exact .inr (.inl report)
      | root there _ joined =>
        rcases joined with same | has
        · exact .inr (.inr ⟨_, there, same⟩)
        · exact .inl (.root there has)
      | @inside parent rest there _ joined =>
        have same : around = (parent :: rest).map Element.head := by rw [← there, grows.heads, heads]
        exact .inl (.inside 0 there (same ▸ List.suffix_refl _) (joined isBranch))

end Shift

def Joins (builder : Builder) (id : Nat) : Prop :=
  (∃ root ∈ builder.root, root.HasBranch id) ∨ ∃ element ∈ builder.opened, element.HasBranch id

/-- What has become of the branch with that number that starts there, when all has been
read.  Around it are the elements inside which it was opened, innermost first. -/
inductive Fate (states : List Builder) (around : List Head) (id start : Nat) (root : Option Element)
    (diagnostics : List Diagnostic) : Prop where
  /-- It joined an element with a condition, and is a branch of the document, unless an
  element around it is left out. -/
  | joined {state : Builder} (held : state ∈ states) (joins : state.Joins id)
      (stays : (∃ tree ∈ root, tree.HasBranch id) ∨
        ∃ outer ∈ around, Rejected diagnostics outer.span.start)
  | rejected (report : Rejected diagnostics start)
  /-- It is the root of the document. -/
  | first (same : ∃ tree ∈ root, tree.head.id = id)

section Fate

variable {settings : Settings} (keeps : KeepsChains settings) {source : String} {first last : Moment}
  {states : List Builder} {around : List Head} {head : Head}

theorem Joined.joins {builder : Builder} {id : Nat} (joined : builder.Joined around id) :
    builder.Joins id := by
  cases joined with
  | root given has => exact .inl ⟨_, given, has⟩
  | inside depth given within has =>
    have part := List.drop_subset depth builder.opened
    rw [given] at part
    exact .inr ⟨_, part List.mem_cons_self, has⟩

theorem Joined.ofClosed {builder : Builder} {id : Nat} (joined : builder.Joined around id)
    (closed : builder.opened = []) : ∃ root ∈ builder.root, root.HasBranch id := by
  cases joined with
  | root given has => exact ⟨_, given, has⟩
  | inside depth given within has =>
    rw [closed, List.drop_nil] at given
    cases given

theorem Fate.more {others : List Builder} {id start : Nat} {root : Option Element}
    {diagnostics : List Diagnostic} (fate : Fate states around id start root diagnostics)
    (more : states ⊆ others) : Fate others around id start root diagnostics := by
  cases fate with
  | joined held joins stays => exact .joined (more held) joins stays
  | rejected report => exact .rejected report
  | first same => exact .first same

include keeps

theorem Course.keepShifts (course : Course settings source first states last)
    (noted : first.builder.Noted) (holds : Builder → Prop)
    (step : ∀ before after, Shift before after → holds before → holds after)
    (start : holds first.builder) : last.builder.Noted ∧ holds last.builder := by
  refine course.keep (fun moment => moment.builder.Noted ∧ holds moment.builder) ?_ ?_ ⟨noted, start⟩
  · rintro before after move ⟨isNoted, held⟩
    exact ⟨isNoted.shift (.stay move.grows), step _ _ (.stay move.grows) held⟩
  · rintro before after move ⟨isNoted, held⟩
    have shift := move.shift keeps isNoted
    exact ⟨isNoted.shift shift, step _ _ shift held⟩

theorem Course.later (course : Course settings source first states last)
    (noted : first.builder.Noted) : first.builder.Later last.builder :=
  (course.keepShifts keeps noted (first.builder.Later ·)
    (fun _ _ shift before => before.trans shift.later) (.refl _)).2

theorem Course.stays (course : Course settings source first states last)
    (noted : first.builder.Noted) {id : Nat} (joined : first.builder.Joined around id) :
    last.builder.Joined around id ∨ ∃ outer ∈ around, Rejected last.builder.diagnostics outer.span.start := by
  refine (course.keepShifts keeps noted (fun builder => builder.Joined around id ∨
    ∃ outer ∈ around, Rejected builder.diagnostics outer.span.start) ?_ (.inl joined)).2
  rintro before after shift (there | ⟨outer, held, report⟩)
  · exact there.shift shift
  · exact .inr ⟨outer, held, report.mono shift.later.reports⟩

/-- A branch that is open when a course begins has its fate when nothing is open any more. -/
theorem Course.fate (course : Course settings source first states last)
    (noted : first.builder.Noted) (isOpen : first.builder.IsOpen around head)
    (isBranch : head.isBranch = true) (closed : last.builder.opened = []) :
    Fate states around head.id head.span.start last.builder.root last.builder.diagnostics := by
  induction course with
  | done moment =>
    obtain ⟨depth, given⟩ := isOpen
    rw [closed, List.map_nil, List.drop_nil] at given
    cases given
  | quiet move rest ih =>
    exact ih (noted.shift (.stay move.grows)) (isOpen.grow move.grows) closed
  | @turn first second last states move rest ih =>
    have shift := move.shift keeps noted
    have isNoted := noted.shift shift
    rcases isOpen.shift isBranch shift with still | joined | report | root
    · exact (ih isNoted still closed).more (List.subset_cons_self _ _)
    · refine .joined List.mem_cons_self joined.joins ?_
      rcases rest.stays keeps isNoted joined with stays | lost
      · exact .inl (stays.ofClosed closed)
      · exact .inr lost
    · exact .rejected (report.mono (rest.later keeps isNoted).reports)
    · obtain ⟨tree, held, same⟩ := root
      obtain ⟨grown, there, grows⟩ := (rest.later keeps isNoted).root tree held
      exact .first ⟨grown, there, by rw [grows.head, same]⟩

end Fate

/-! ## Start tags -/

section Start

variable {settings : Settings} {source tag : String} {before behind : List Token}
  {attributes : List SourceAttribute} {selfClosing : Bool} {span : Span}

theorem tokensStates_append (settings : Settings) (source : String) (tokens others : List Token)
    (builder : Builder) : tokensStates settings source (tokens ++ others) builder =
      tokensStates settings source tokens builder ++
        tokensStates settings source others (tokens.foldl (Builder.token settings source) builder) := by
  induction tokens generalizing builder with
  | nil => rfl
  | cons token rest ih =>
    rw [List.cons_append, tokensStates, ih, tokensStates, List.append_assoc, List.foldl_cons]

theorem behindStart_mem_history
    (tokens : scan source = before ++ .startTag tag attributes selfClosing span :: behind) :
    (before.foldl (Builder.token settings source) .initial).behindStart settings tag attributes span ∈
      history settings source := by
  unfold history
  rw [tokens, tokensStates_append, tokensStates, tokenStates, startStates]
  simp only [List.mem_append, List.mem_cons, true_or, or_true]

end Start

end Builder

/-- The tag asks for the element before it, and has no condition of its own.  It is not
taken as it is written. -/
def ContinuesChain (attributes : List SourceAttribute) : Prop :=
  (∃ item ∈ attributes, item.name = "v-else" ∨ item.name = "v-else-if") ∧
    ∀ item ∈ attributes, item.name ≠ "v-if" ∧ item.name ≠ "v-pre"

instance : DecidablePred ContinuesChain := fun _ => inferInstanceAs (Decidable (_ ∧ _))

section Start

variable {head : Head}

theorem take_eq_none {name : String} (absent : ∀ item ∈ head.pending, item.name ≠ name) :
    head.take? name = none := by
  have missing : head.pending.find? (fun item => item.name == name) = none :=
    List.find?_eq_none.mpr fun item held => by simpa using absent item held
  rw [Head.take?, Head.takeFirst?, missing]
  rfl

theorem take_isSome {name : String} (present : ∃ item ∈ head.pending, item.name = name) :
    ∃ item rest, head.take? name = some (item, rest) := by
  obtain ⟨item, held, same⟩ := present
  have found : (head.pending.find? fun item => item.name == name).isSome = true :=
    List.find?_isSome.mpr ⟨item, held, by simpa using same⟩
  obtain ⟨first, given⟩ := Option.isSome_iff_exists.mp found
  exact ⟨first, _, by rw [Head.take?, Head.takeFirst?, given]; rfl⟩

theorem takeLoop_pending (head : Head) :
    head.takeLoop.1.pending = head.pending.eraseP fun item => item.name == "v-for" := by
  unfold Head.takeLoop
  split
  · next none =>
    refine (List.eraseP_of_forall_not fun item held found => ?_).symm
    obtain ⟨first, rest, taken⟩ := take_isSome ⟨item, held, by simpa using found⟩
    rw [taken] at none
    cases none
  · next item rest taken =>
    obtain ⟨found, -, same⟩ := Option.map_eq_some_iff.mp taken
    cases same
    simp only
    split <;> rfl

theorem takeCondition_isBranch (free : ∀ item ∈ head.pending, item.name ≠ "v-if")
    (asks : ∃ item ∈ head.pending, item.name = "v-else" ∨ item.name = "v-else-if") :
    head.takeCondition.1.isBranch = true := by
  unfold Head.takeCondition
  rw [take_eq_none free]
  simp only
  split
  · simp only [Head.isBranch, Bool.or_true]
  · next noElse =>
    obtain ⟨item, held, named⟩ := asks
    have later : ∃ item ∈ head.pending, item.name = "v-else-if" := by
      refine ⟨item, held, named.resolve_left fun same => ?_⟩
      obtain ⟨first, rest, taken⟩ := take_isSome ⟨item, held, same⟩
      rw [taken] at noElse
      cases noElse
    obtain ⟨first, rest, taken⟩ := take_isSome later
    rw [taken]
    simp only [Head.isBranch, Option.isSome_some, Bool.true_or]

theorem takeOnce_isBranch (head : Head) : head.takeOnce.isBranch = head.isBranch := by
  unfold Head.takeOnce
  split
  · next taken =>
    have leaves := Head.takeFirst_leaves taken
    simp only [Head.isBranch, leaves.branchCondition, leaves.isElse]
  · rfl

theorem enter_isBranch {outside : Builder} (plain : outside.isVerbatim = false)
    (continues : ContinuesChain head.pending) : (outside.enter head).1.isBranch = true := by
  obtain ⟨⟨item, held, asks⟩, free⟩ := continues
  have none : outside.verbatimRoot = none := by simpa [Builder.isVerbatim] using plain
  have noVerbatim := take_eq_none fun item held => (free item held).2
  have kept : ∀ item ∈ head.takeLoop.1.pending, item ∈ head.pending := by
    rw [takeLoop_pending]
    exact fun item held => List.mem_of_mem_eraseP held
  have still : item ∈ head.takeLoop.1.pending := by
    rw [takeLoop_pending]
    refine (List.mem_eraseP_of_neg ?_).mpr held
    rcases asks with same | same
    · rw [same]
      decide
    · rw [same]
      decide
  unfold Builder.enter Builder.isVerbatim
  rw [none]
  simp only [Option.isSome_none, Bool.false_eq_true, if_false, noVerbatim, Head.takeStructure,
    takeOnce_isBranch]
  exact takeCondition_isBranch (fun other inside => (free other (kept other inside)).1) ⟨item, still, asks⟩

theorem distinctAttributes_names (tag : String) (seen : List String) (items : List SourceAttribute)
    (name : String) :
    name ∈ (Builder.distinctAttributes tag seen items).1.map SourceAttribute.name ↔
      name ∉ seen ∧ name ∈ items.map SourceAttribute.name := by
  induction items generalizing seen with
  | nil => simp [Builder.distinctAttributes]
  | cons item rest ih =>
    unfold Builder.distinctAttributes
    split
    · next known =>
      have held : item.name ∈ seen := by simpa using known
      rw [ih, List.map_cons, List.mem_cons]
      by_cases first : name = item.name
      · simp [first, held]
      · simp [first]
    · next fresh =>
      have new : item.name ∉ seen := by simpa using fresh
      simp only [List.map_cons, List.mem_cons, ih, not_or]
      by_cases first : name = item.name
      · simp [first, new]
      · simp [first]

theorem ContinuesChain.distinct {attributes : List SourceAttribute} (continues : ContinuesChain attributes)
    (tag : String) : ContinuesChain (Builder.distinctAttributes tag [] attributes).1 := by
  obtain ⟨⟨item, held, asks⟩, free⟩ := continues
  constructor
  · obtain ⟨other, kept, same⟩ := List.mem_map.mp ((distinctAttributes_names tag [] attributes item.name).mpr
      ⟨List.not_mem_nil, List.mem_map_of_mem held⟩)
    exact ⟨other, kept, same ▸ asks⟩
  · intro other kept
    obtain ⟨-, inside⟩ :=
      (distinctAttributes_names tag [] attributes other.name).mp (List.mem_map_of_mem kept)
    obtain ⟨given, inside, same⟩ := List.mem_map.mp inside
    exact same ▸ free given inside

/-- A tag that asks for the element before it becomes a branch of one that has a condition,
or is reported as left out, or becomes the root. -/
theorem parse_branch_fate {settings : Settings} (keeps : Builder.KeepsChains settings)
    {source tag : String} {before behind : List Token} {attributes : List SourceAttribute}
    {selfClosing : Bool} {span : Span}
    (tokens : scan source = before ++ .startTag tag attributes selfClosing span :: behind)
    (continues : ContinuesChain attributes) :
    let outside :=
      (before.foldl (Builder.token settings source) .initial).closeBefore settings tag span
    outside.isVerbatim = false →
      Builder.Fate (Builder.history settings source) (outside.opened.map Element.head)
        outside.nextId span.start (Document.parse settings source).1.root
        (Document.parse settings source).2 := by
  intro outside plain
  obtain ⟨position, final, course, closed, same⟩ := parse_course settings source
  obtain ⟨moment, earlier, later, behindTag, prior, rest, part⟩ :=
    course.split (Builder.behindStart_mem_history tokens)
  have noted : Builder.Noted .initial := List.forall_mem_nil _
  have isNoted := (prior.keepShifts keeps noted (fun _ => True) (fun _ _ _ _ => trivial) trivial).1
  let fresh := outside.freshHead settings tag (Builder.distinctAttributes tag [] attributes).1 span
  have kept := enter_keeps outside fresh
  have isBranch : (outside.enter fresh).1.isBranch = true :=
    enter_isBranch plain (continues.distinct tag)
  have isOpen : moment.builder.IsOpen (outside.opened.map Element.head) (outside.enter fresh).1 :=
    ⟨0, by rw [behindTag]; rfl⟩
  have fate := (rest.fate keeps isNoted isOpen isBranch closed).more part
  rw [kept.id, kept.span] at fate
  rw [same]
  exact fate

end Start

end Templating.Template
