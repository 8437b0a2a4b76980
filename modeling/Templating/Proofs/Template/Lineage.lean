import Templating.Proofs.Template.Steps
/-!
# Elements in their places

Where an element stands in a tree is told by the elements around it.  Two rules
hold at every place of a tree that has been read: only an element with a
condition has branches, and what is inside a verbatim element is verbatim too,
but for line breaks that were never opened.
-/
set_option autoImplicit false

namespace Templating.Template

open Templating.Text Templating.Data Templating.Markup

/-- The element stands in the tree of the first one, inside those above, outermost
first: among their children, or in their branches. -/
inductive Lineage : Element → List Element → Element → Prop where
  | here (element : Element) : Lineage element [] element
  | child {parent child element : Element} {above : List Element}
      (held : .element child ∈ parent.children) (inner : Lineage child above element) :
    Lineage parent (parent :: above) element
  | branch {parent element : Element} {branch : Branch} {above : List Element}
      (held : branch ∈ parent.branches) (inner : Lineage branch.block above element) :
    Lineage parent (parent :: above) element

/-- The predicate holds of every element in the tree. -/
def Element.Throughout (holds : Element → Prop) (root : Element) : Prop :=
  ∀ above element, Lineage root above element → holds element

/-- The predicate holds of every element inside this one. -/
structure Element.Below (holds : Element → Prop) (element : Element) : Prop where
  children : ∀ child, .element child ∈ element.children → child.Throughout holds
  branches : ∀ branch ∈ element.branches, branch.block.Throughout holds

section Throughout

variable {holds : Element → Prop} {element : Element}

theorem Element.throughout_iff :
    element.Throughout holds ↔ holds element ∧ element.Below holds := by
  constructor
  · intro all
    refine ⟨all [] element (.here element), ⟨?_, ?_⟩⟩
    · intro child held above inner lineage
      exact all (element :: above) inner (.child held lineage)
    · intro branch held above inner lineage
      exact all (element :: above) inner (.branch held lineage)
  · rintro ⟨own, children, branches⟩ above inner lineage
    cases lineage with
    | here => exact own
    | child held lineage => exact children _ held _ _ lineage
    | branch held lineage => exact branches _ held _ _ lineage

theorem Element.Throughout.withHead {head : Head} (all : element.Throughout holds)
    (own : holds { element with head }) :
    ({ element with head } : Element).Throughout holds := by
  obtain ⟨-, children, branches⟩ := Element.throughout_iff.mp all
  exact Element.throughout_iff.mpr ⟨own, children, branches⟩

end Throughout

section Decide

variable (holds : Element → Prop) [DecidablePred holds]

mutual

def Element.decideThroughout : (element : Element) → Decidable (element.Throughout holds)
  | ⟨head, children, branches⟩ =>
    have := decideChildrenThroughout children
    have := decideBranchesThroughout branches
    decidable_of_iff (holds ⟨head, children, branches⟩ ∧
        (∀ child, .element child ∈ children → child.Throughout holds) ∧
          ∀ branch ∈ branches, branch.block.Throughout holds)
      (Element.throughout_iff.trans
        (and_congr_right fun _ => ⟨fun below => ⟨below.1, below.2⟩, fun both => ⟨both.1, both.2⟩⟩)).symm

def decideChildrenThroughout : (nodes : List Node) →
    Decidable (∀ child, .element child ∈ nodes → child.Throughout holds)
  | [] => .isTrue fun _ held => by cases held
  | .element element :: rest =>
    have := element.decideThroughout
    have := decideChildrenThroughout rest
    decidable_of_iff (element.Throughout holds ∧
        ∀ child, .element child ∈ rest → child.Throughout holds)
      (by simp)
  | .text run :: rest =>
    have := decideChildrenThroughout rest
    decidable_of_iff (∀ child, .element child ∈ rest → child.Throughout holds) (by simp)
  | .comment comment :: rest =>
    have := decideChildrenThroughout rest
    decidable_of_iff (∀ child, .element child ∈ rest → child.Throughout holds) (by simp)

def decideBranchesThroughout : (branches : List Branch) →
    Decidable (∀ branch ∈ branches, branch.block.Throughout holds)
  | [] => .isTrue fun _ held => by cases held
  | ⟨condition, block⟩ :: rest =>
    have := block.decideThroughout
    have := decideBranchesThroughout rest
    decidable_of_iff (block.Throughout holds ∧ ∀ branch ∈ rest, branch.block.Throughout holds)
      (by simp)

end

instance : DecidablePred (Element.Throughout holds) := Element.decideThroughout holds

end Decide

section Lineage

variable {root element : Element} {above : List Element}

theorem Lineage.split (lineage : Lineage root above element) {before behind : List Element}
    {outer : Element} (way : above ++ [element] = before ++ outer :: behind) :
    Lineage root before outer := by
  induction lineage generalizing before with
  | here element =>
    cases before with
    | nil =>
      cases way
      exact .here _
    | cons first others => simp at way
  | child held inner ih =>
    cases before with
    | nil =>
      cases way
      exact .here _
    | cons first others =>
      obtain ⟨rfl, rest⟩ := List.cons.inj way
      exact .child held (ih rest)
  | branch held inner ih =>
    cases before with
    | nil =>
      cases way
      exact .here _
    | cons first others =>
      obtain ⟨rfl, rest⟩ := List.cons.inj way
      exact .branch held (ih rest)

theorem Lineage.trans {between : List Element} {inner : Element}
    (lineage : Lineage root above element) (further : Lineage element between inner) :
    Lineage root (above ++ between) inner := by
  induction lineage with
  | here element => exact further
  | child held _ ih => exact .child held (ih further)
  | branch held _ ih => exact .branch held (ih further)

theorem Lineage.hasParts (lineage : Lineage root above element) {outer : Element}
    (held : outer ∈ above) : outer.children ≠ [] ∨ outer.branches ≠ [] := by
  induction lineage with
  | here element => cases held
  | child inside inner ih =>
    rcases List.mem_cons.mp held with rfl | held
    · exact .inl (List.ne_nil_of_mem inside)
    · exact ih held
  | branch inside inner ih =>
    rcases List.mem_cons.mp held with rfl | held
    · exact .inr (List.ne_nil_of_mem inside)
    · exact ih held

theorem Lineage.keep {holds : Element → Prop} (lineage : Lineage root above element)
    (child : ∀ parent child, holds parent → .element child ∈ parent.children → holds child)
    (branch : ∀ parent, holds parent → ∀ branch ∈ parent.branches, holds branch.block)
    (start : holds root) : holds element := by
  induction lineage with
  | here element => exact start
  | child held inner ih => exact ih (child _ _ start held)
  | branch held inner ih => exact ih (branch _ start _ held)

end Lineage

/-! ## The rules on places -/

/-- The element is taken as it is written, or is a line break that was never
opened. -/
def Element.IsInert (element : Element) : Prop :=
  element.head.isVerbatim = true ∨ element.head.tag = "br" ∧ element.children = []

/-- The extensions look at the attributes that they own, and at nothing else. -/
def Settings.IsFaithful (settings : Settings) : Prop :=
  ∀ extension ∈ settings.extensions, extension.IsFaithful

/-- Branches need a condition.  Where extensions can be trusted, children of a
verbatim element are inert. -/
structure Element.IsPlaced (trusted : Prop) (element : Element) : Prop where
  condition : element.branches ≠ [] → element.head.condition.isSome = true
  inert : trusted → element.head.isVerbatim = true →
    ∀ child, .element child ∈ element.children → child.IsInert

/-- The rules hold below the element, which has no branches yet. -/
structure Element.IsOpened (trusted : Prop) (element : Element) : Prop where
  unbranched : element.branches = []
  inert : trusted → element.head.isVerbatim = true →
    ∀ child, .element child ∈ element.children → child.IsInert
  below : ∀ child, .element child ∈ element.children → child.Throughout (Element.IsPlaced trusted)

section Opened

variable {trusted : Prop} {parent element : Element}

theorem Element.IsOpened.addLeaf (opened : parent.IsOpened trusted) {node : Node}
    (leaf : ∀ child, node ≠ .element child) : (parent.addChild node).IsOpened trusted where
  unbranched := opened.unbranched
  inert := by
    intro trust verbatim child held
    rcases List.mem_append.mp held with held | held
    · exact opened.inert trust verbatim child held
    · exact absurd (List.mem_singleton.mp held).symm (leaf child)
  below := by
    intro child held
    rcases List.mem_append.mp held with held | held
    · exact opened.below child held
    · exact absurd (List.mem_singleton.mp held).symm (leaf child)

theorem Element.IsOpened.addChild (opened : parent.IsOpened trusted)
    (inert : trusted → parent.head.isVerbatim = true → element.IsInert)
    (placed : element.Throughout (Element.IsPlaced trusted)) :
    (parent.addChild (.element element)).IsOpened trusted where
  unbranched := opened.unbranched
  inert := by
    intro trust verbatim child held
    rcases List.mem_append.mp held with held | held
    · exact opened.inert trust verbatim child held
    · cases List.mem_singleton.mp held
      exact inert trust verbatim
  below := by
    intro child held
    rcases List.mem_append.mp held with held | held
    · exact opened.below child held
    · cases List.mem_singleton.mp held
      exact placed

theorem addBranch_isPlaced {previous branch : Element}
    (placed : previous.Throughout (Element.IsPlaced trusted))
    (conditional : previous.head.condition.isSome = true)
    (placedBranch : branch.Throughout (Element.IsPlaced trusted)) :
    (previous.addBranch branch).Throughout (Element.IsPlaced trusted) := by
  obtain ⟨own, below⟩ := Element.throughout_iff.mp placed
  obtain ⟨ownBranch, -⟩ := Element.throughout_iff.mp placedBranch
  have placedHere : (previous.addBranch branch).IsPlaced trusted := ⟨fun _ => conditional, own.inert⟩
  refine Element.throughout_iff.mpr ⟨placedHere, ⟨below.children, ?_⟩⟩
  intro other held
  rcases List.mem_append.mp held with held | held
  · exact below.branches other held
  · cases List.mem_singleton.mp held
    exact placedBranch.withHead ⟨ownBranch.condition, ownBranch.inert⟩

theorem attachBranch_isOpened {branch : Element} (opened : parent.IsOpened trusted)
    (plain : trusted → parent.head.isVerbatim = false)
    (placed : branch.Throughout (Element.IsPlaced trusted)) :
    (attachBranch parent branch).1.IsOpened trusted ∧
      (attachBranch parent branch).1.head = parent.head := by
  have fewer : ∀ node ∈ (dropToElement parent.children.reverse).1, node ∈ parent.children :=
    fun node held => List.mem_reverse.mp (dropToElement_subset _ node held)
  unfold attachBranch
  simp only
  generalize (dropToElement parent.children.reverse).2 = diagnostics
  generalize (dropToElement parent.children.reverse).1 = backwards at fewer ⊢
  have noInert {children : List Node} : trusted →
      ({ parent with children } : Element).head.isVerbatim = true →
      ∀ child, .element child ∈ children → child.IsInert := by
    intro trust verbatim
    rw [plain trust] at verbatim
    cases verbatim
  have kept : ({ parent with children := backwards.reverse } : Element).IsOpened trusted :=
    ⟨opened.unbranched, noInert,
      fun child held => opened.below child (fewer _ (List.mem_reverse.mp held))⟩
  split
  · next previous earlier =>
    split
    · next conditional =>
      refine ⟨⟨opened.unbranched, noInert, ?_⟩, rfl⟩
      intro child held
      rcases List.mem_cons.mp (List.mem_reverse.mp held) with same | held
      · cases same
        exact addBranch_isPlaced (opened.below previous (fewer _ List.mem_cons_self)) conditional placed
      · exact opened.below child (fewer _ (List.mem_cons_of_mem _ held))
    · exact ⟨kept, rfl⟩
  · exact ⟨kept, rfl⟩

end Opened

namespace Builder

/-! ## Steps keep the rules -/

/-- What is inside a verbatim element is verbatim, innermost first. -/
def IsNested (opened : List Element) : Prop :=
  opened.IsChain fun inner outer => outer.head.isVerbatim = true → inner.head.isVerbatim = true

structure InPlace (trusted : Prop) (builder : Builder) : Prop where
  opened : ∀ element ∈ builder.opened, element.IsOpened trusted
  nested : trusted → IsNested builder.opened
  root : ∀ root ∈ builder.root, root.Throughout (Element.IsPlaced trusted)

theorem InPlace.initial (trusted : Prop) : Builder.initial.InPlace trusted where
  opened _ held := by cases held
  nested _ := .nil
  root _ held := by cases held

theorem InPlace.place {trusted : Prop} {builder : Builder} (placed : builder.InPlace trusted)
    {element : Element} (own : element.Throughout (Element.IsPlaced trusted))
    (inert : trusted → ∀ parent ∈ builder.opened.head?, parent.head.isVerbatim = true →
      element.IsInert ∧ element.head.isBranch = false) :
    (builder.place element).InPlace trusted := by
  obtain ⟨opened, nested, root⟩ := placed
  unfold Builder.place
  cases given : builder.opened with
  | cons parent outer =>
    rw [given] at opened nested inert
    obtain ⟨parentOpened, outerOpened⟩ := List.forall_mem_cons.mp opened
    have inside (trust : trusted) := inert trust parent rfl
    -- The parent keeps its head, and with it its place among those that are open.
    have changed {joined : Element} (same : joined.head = parent.head) :
        trusted → IsNested (joined :: outer) := by
      intro trust
      cases outer with
      | nil => exact .singleton _
      | cons next others =>
        obtain ⟨first, rest⟩ := List.isChain_cons_cons.mp (nested trust)
        exact List.isChain_cons_cons.mpr ⟨same ▸ first, rest⟩
    simp only
    split
    · exact ⟨given ▸ opened, given ▸ nested, root⟩
    · split
      · next isBranch =>
        have plain : trusted → parent.head.isVerbatim = false := by
          intro trust
          by_contra verbatim
          rw [(inside trust (by simpa using verbatim)).2] at isBranch
          cases isBranch
        obtain ⟨joinedOpened, same⟩ := attachBranch_isOpened parentOpened plain own
        exact ⟨List.forall_mem_cons.mpr ⟨joinedOpened, outerOpened⟩, changed same, root⟩
      · have joinedOpened :=
          parentOpened.addChild (fun trust verbatim => (inside trust verbatim).1) own
        exact ⟨List.forall_mem_cons.mpr ⟨joinedOpened, outerOpened⟩, changed rfl, root⟩
  | nil =>
    rw [given] at opened nested
    simp only
    split
    · refine ⟨given ▸ opened, given ▸ nested, ?_⟩
      rintro _ ⟨⟩
      exact own
    · next previous held =>
      split
      · next joins =>
        simp only [Bool.and_eq_true] at joins
        refine ⟨given ▸ opened, given ▸ nested, ?_⟩
        rintro _ ⟨⟩
        exact addBranch_isPlaced (root previous held) joins.1 own
      · exact ⟨given ▸ opened, given ▸ nested, root⟩

variable {settings : Settings}

theorem raw_of_verbatim {mode : Option Nat} {element : Element} {outer : List Element}
    (stack : Stack mode (element :: outer)) {parent : Element} (held : parent ∈ outer)
    (verbatim : parent.head.isVerbatim = true) : mode.isSome = true ∧ RawElement element := by
  have clash (plain : PlainElement parent) : mode.isSome = true ∧ RawElement element := by
    have := plain.plain
    rw [verbatim] at this
    cases this
  cases stack with
  | plain all => exact clash (all parent (List.mem_cons_of_mem _ held))
  | root _ _ _ all => exact clash (all parent held)
  | inner _ _ raw _ => exact ⟨rfl, raw⟩

theorem InPlace.close {builder : Builder} (placed : builder.InPlace settings.IsFaithful)
    {element : Element}
    (stack : settings.IsFaithful → Stack builder.verbatimRoot (element :: builder.opened))
    (opened : element.IsOpened settings.IsFaithful)
    (inert : settings.IsFaithful →
      ∀ parent ∈ builder.opened.head?, parent.head.isVerbatim = true → element.IsInert) :
    (builder.close settings element).InPlace settings.IsFaithful := by
  have unchanged (faithful : settings.IsFaithful) (outside : builder.isVerbatim = false) :
      (element.head.complete settings).1.isVerbatim = element.head.isVerbatim := by
    have stack := stack faithful
    have none : builder.verbatimRoot = none := by simpa [isVerbatim] using outside
    rw [none] at stack
    cases stack with
    | plain all =>
      obtain ⟨plain, formed⟩ := all element List.mem_cons_self
      have ready := ((formedElement_plain element plain).mp formed).2.1
      exact (Ready.complete ready faithful).isVerbatim
  have subset := closedChildren_subset builder.isPreformatted element.children
  unfold Builder.close
  simp only
  generalize (if builder.isPreformatted then element.children
    else withoutTrailingSpaces element.children) = kept at subset ⊢
  generalize settled : (if builder.isVerbatim then (element.head, [])
    else element.head.complete settings) = final
  have verbatim (faithful : settings.IsFaithful) :
      final.1.isVerbatim = element.head.isVerbatim := by
    rw [← settled]
    split
    · rfl
    · next outside => exact unchanged faithful (by simpa using outside)
  have own : ({ element with head := final.1, children := kept } : Element).Throughout
      (Element.IsPlaced settings.IsFaithful) := by
    have placedHere : ({ element with head := final.1, children := kept } : Element).IsPlaced
        settings.IsFaithful :=
      ⟨fun branched => absurd opened.unbranched branched, fun faithful isVerbatim child held =>
        opened.inert faithful (verbatim faithful ▸ isVerbatim) child (subset _ held)⟩
    refine Element.throughout_iff.mpr ⟨placedHere, ⟨?_, ?_⟩⟩
    · intro child held
      exact opened.below child (subset _ held)
    · intro branch held
      rw [opened.unbranched] at held
      cases held
  have reported : (builder.report final.2).InPlace settings.IsFaithful :=
    ⟨placed.opened, placed.nested, placed.root⟩
  have closed := reported.place own fun faithful parent held isVerbatim => by
    obtain ⟨inside, raw⟩ :=
      raw_of_verbatim (stack faithful) (List.mem_of_mem_head? held) isVerbatim
    have rawHead := ((rawElement_iff element).mp raw).1
    have verbatimRegion : builder.isVerbatim = true := inside
    have same : final.1 = element.head := by
      rw [← settled, if_pos verbatimRegion]
    refine ⟨?_, by simp [same, Head.isBranch, rawHead.branchCondition, rawHead.isElse]⟩
    rcases inert faithful parent held isVerbatim with verbatimElement | ⟨tag, childless⟩
    · exact .inl ((verbatim faithful).trans verbatimElement)
    · refine .inr ⟨same ▸ tag, List.eq_nil_iff_forall_not_mem.mpr fun node inside => ?_⟩
      have old := subset node inside
      rw [childless] at old
      cases old
  exact ⟨closed.opened, closed.nested, closed.root⟩

theorem enter_isVerbatim {outside : Builder} (inside : outside.isVerbatim = true) (fresh : Head) :
    (outside.enter fresh).1.isVerbatim = true := by
  have region : outside.verbatimRoot.isSome = true := inside
  simp [enter, inside, region, Head.takeVerbatim]

theorem IsNested.outer {element : Element} {outer : List Element}
    (nested : IsNested (element :: outer)) : IsNested outer := by
  cases outer with
  | nil => exact .nil
  | cons next others => exact (List.isChain_cons_cons.mp nested).2

theorem InPlace.step {before after : Builder} (formed : settings.IsFaithful → before.Formed)
    (placed : before.InPlace settings.IsFaithful) (step : Step settings before after) :
    after.InPlace settings.IsFaithful := by
  -- A step changes the innermost element by a leaf, puts a new one in front of it, or closes it.
  have leaf {parent : Element} {outer : List Element} (given : before.opened = parent :: outer)
      {node : Node} (leaf : ∀ child, node ≠ .element child) (nextId : Nat) :
      InPlace settings.IsFaithful
        { before with nextId, opened := parent.addChild node :: outer } := by
    obtain ⟨opened, nested, root⟩ := placed
    rw [given] at opened nested
    obtain ⟨first, others⟩ := List.forall_mem_cons.mp opened
    refine ⟨List.forall_mem_cons.mpr ⟨first.addLeaf leaf, others⟩, fun faithful => ?_, root⟩
    cases outer with
    | nil => exact .singleton _
    | cons next rest =>
      obtain ⟨here, behind⟩ := List.isChain_cons_cons.mp (nested faithful)
      exact List.isChain_cons_cons.mpr ⟨here, behind⟩
  have inner {element : Element} (opened : element.IsOpened settings.IsFaithful) {nextId : Nat}
      {verbatimRoot : Option Nat} {isPreformatted : Bool}
      (nested : settings.IsFaithful → IsNested (element :: before.opened)) :
      InPlace settings.IsFaithful { before with
        nextId, verbatimRoot, isPreformatted, opened := element :: before.opened } :=
    ⟨List.forall_mem_cons.mpr ⟨opened, placed.opened⟩, nested, placed.root⟩
  have fresh (head : Head) : Element.IsOpened settings.IsFaithful ⟨head, [], []⟩ :=
    ⟨rfl, (fun _ _ _ held => by cases held), (fun _ held => by cases held)⟩
  cases step with
  | report diagnostics => exact ⟨placed.opened, placed.nested, placed.root⟩
  | spend => exact ⟨placed.opened, placed.nested, placed.root⟩
  | text given content segments span plain => exact leaf given (fun _ same => by cases same) _
  | comment given content span => exact leaf given (fun _ same => by cases same) _
  | enter named attributes span reported =>
    refine inner (fresh _) fun faithful => ?_
    cases given : before.opened with
    | nil => exact .singleton _
    | cons parent outer =>
      have nested := placed.nested faithful
      rw [given] at nested
      refine List.isChain_cons_cons.mpr ⟨fun verbatim => ?_, nested⟩
      have stack := (formed faithful).shape.stack
      apply enter_isVerbatim
      -- A verbatim parent is open in no plain region, so the region is verbatim.
      by_contra outside
      have none : before.verbatimRoot = none := by simpa [isVerbatim] using outside
      rw [none, given] at stack
      cases stack with
      | plain all =>
        have plain := (all parent List.mem_cons_self).plain
        rw [verbatim] at plain
        cases plain
  | lineBreak span =>
    have counted : InPlace settings.IsFaithful { before with nextId := before.nextId + 1 } :=
      ⟨placed.opened, placed.nested, placed.root⟩
    exact counted.close (fun faithful => lineBreak_stack (formed faithful) span) (fresh _)
      fun _ _ _ _ => .inr ⟨rfl, rfl⟩
  | close given span =>
    rename_i element outer
    obtain ⟨opened, nested, root⟩ := placed
    rw [given] at opened nested
    obtain ⟨first, others⟩ := List.forall_mem_cons.mp opened
    have popped : InPlace settings.IsFaithful { before with opened := outer } :=
      ⟨others, fun faithful => (nested faithful).outer, root⟩
    refine popped.close ?_ ⟨first.unbranched, first.inert, first.below⟩ ?_
    · intro faithful
      have stack := (formed faithful).shape.stack
      rw [given] at stack
      exact stack.withSpan span
    · intro faithful parent held verbatim
      cases outer with
      | nil => cases held
      | cons next rest =>
        cases held
        exact .inl ((List.isChain_cons_cons.mp (nested faithful)).1 verbatim)

end Builder

/-- The rules on places hold throughout a document that has been read. -/
theorem parse_placed (settings : Settings) (source : String) :
    ∀ root ∈ (Document.parse settings source).1.root,
      root.Throughout (Element.IsPlaced settings.IsFaithful) := by
  obtain ⟨final, steps, same⟩ := parse_steps settings source
  have kept : (settings.IsFaithful → final.Formed) ∧ final.InPlace settings.IsFaithful := by
    refine steps.keep (fun builder => (settings.IsFaithful → builder.Formed) ∧
      builder.InPlace settings.IsFaithful) ?_ ⟨fun _ => .initial, .initial _⟩
    intro before after step both
    exact ⟨fun faithful => (both.1 faithful).step faithful step, both.2.step both.1 step⟩
  rw [same]
  exact kept.2.root

end Templating.Template
