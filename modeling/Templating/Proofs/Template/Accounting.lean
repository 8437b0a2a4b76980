import Templating.Proofs.Template.Accounts
import Templating.Proofs.Template.Joining
import Templating.Proofs.Template.Strokes
/-!
# No attribute disappears

Every element of a tree begins at a token of the template, and the attributes of that
token wait in the head of the element while it is open.  When it closes each of them is
accounted for.  Reports are never taken back, so that this still holds when all has been
read; only the condition of a branch moves, to the element that the branch joins.
-/
set_option autoImplicit false

namespace Templating.Template

open Templating.Text Templating.Data Templating.Markup

/-- The predicate holds of the head of each child, and of the block of each branch under
the condition of the branch. -/
structure Element.Holding (holds : Option String → Head → Prop) (element : Element) : Prop where
  children : ∀ child, .element child ∈ element.children → holds none child.head
  branches : ∀ branch ∈ element.branches, holds branch.condition branch.block.head

/-- The predicate holds of all heads in the tree. -/
structure Element.HoldsAll (holds : Option String → Head → Prop) (element : Element) : Prop where
  own : holds none element.head
  inside : element.Throughout (Element.Holding holds)

section Holding

variable {holds others : Option String → Head → Prop} {element parent branch : Element}

theorem Element.Holding.mono (all : element.Throughout (Element.Holding holds))
    (weaker : ∀ condition head, holds condition head → others condition head) :
    element.Throughout (Element.Holding others) := by
  intro above inner lineage
  obtain ⟨children, branches⟩ := all above inner lineage
  refine ⟨?_, ?_⟩
  · intro child held
    exact weaker none child.head (children child held)
  · intro branch held
    exact weaker branch.condition branch.block.head (branches branch held)

theorem Element.Holding.fresh (head : Head) :
    Element.Throughout (Element.Holding holds) ⟨head, [], []⟩ := by
  refine .fresh ⟨?_, ?_⟩
  · intro child held
    cases held
  · intro branch held
    cases held

theorem Element.Holding.fewer (all : element.Throughout (Element.Holding holds)) (head : Head)
    {children : List Node} (part : ∀ node ∈ children, node ∈ element.children) :
    Element.Throughout (Element.Holding holds) { element with head, children } := by
  obtain ⟨own, branches⟩ := (Element.throughout_iff.mp all).1
  exact all.withParts ⟨fun child held => own child (part _ held), branches⟩ part

theorem Element.Holding.addLeaf (all : parent.Throughout (Element.Holding holds)) {node : Node}
    (leaf : ∀ child, node ≠ .element child) :
    (parent.addChild node).Throughout (Element.Holding holds) := by
  obtain ⟨children, branches⟩ := (Element.throughout_iff.mp all).1
  refine all.addChild ⟨?_, branches⟩ fun child same => absurd same (leaf child)
  intro child held
  rcases List.mem_append.mp held with held | held
  · exact children child held
  · exact absurd (List.mem_singleton.mp held).symm (leaf child)

theorem Element.HoldsAll.joins (inside : branch.HoldsAll holds)
    (joined : holds branch.head.branchCondition { branch.head with branchCondition := none }) :
    Element.Joins (Element.Holding holds) branch where
  fewer front all := ⟨fun child held => all.children child (front.subset held), all.branches⟩
  changed := by
    intro element previous changed front same all
    refine ⟨?_, all.branches⟩
    intro child held
    rcases List.mem_append.mp held with held | held
    · exact all.children child (List.mem_append_left _ held)
    · cases List.mem_singleton.mp held
      rw [same]
      exact all.children previous (List.mem_append_right _ (List.mem_singleton_self _))
  joined := by
    intro element all
    refine ⟨all.children, ?_⟩
    intro other held
    rcases List.mem_append.mp held with held | held
    · exact all.branches other held
    · cases List.mem_singleton.mp held
      exact joined
  block := by
    obtain ⟨children, branches⟩ := (Element.throughout_iff.mp inside.inside).1
    exact ⟨children, branches⟩

namespace Builder

/-- The predicate holds of all heads that have closed, and of those that are open another. -/
structure Holding (opens : Head → Prop) (holds : Option String → Head → Prop) (builder : Builder) :
    Prop where
  heads : ∀ element ∈ builder.opened, opens element.head
  opened : ∀ element ∈ builder.opened, element.Throughout (Element.Holding holds)
  root : ∀ root ∈ builder.root, root.HoldsAll holds

theorem place_root {builder : Builder} {root : Element} (held : root ∈ (builder.place element).root) :
    root.head = element.head ∨ ∃ old ∈ builder.root, root.head = old.head := by
  unfold place at held
  split at held
  · repeat' split at held
    all_goals exact .inr ⟨root, held, rfl⟩
  · split at held
    · cases held
      exact .inl rfl
    · next previous there =>
      split at held
      · cases held
        exact .inr ⟨previous, there, rfl⟩
      · exact .inr ⟨root, held, rfl⟩

theorem Holding.place {opens : Head → Prop} {builder : Builder} (holding : builder.Holding opens holds)
    (inside : element.HoldsAll holds)
    (joined : holds element.head.branchCondition { element.head with branchCondition := none }) :
    (builder.place element).Holding opens holds := by
  have heads : ∀ other ∈ (builder.place element).opened, opens other.head := by
    have same := (place_grows builder element).heads
    intro other held
    have there : other.head ∈ builder.opened.map Element.head := same ▸ List.mem_map_of_mem held
    obtain ⟨old, before, sameHead⟩ := List.mem_map.mp there
    exact sameHead ▸ holding.heads old before
  have placed := place_throughout (inside.joins joined) inside.inside holding.opened
    (fun root held => (holding.root root held).inside) fun parent _ own => by
      refine ⟨?_, own.branches⟩
      intro child held
      rcases List.mem_append.mp held with held | held
      · exact own.children child held
      · cases List.mem_singleton.mp held
        exact inside.own
  refine ⟨heads, placed.1, fun root held => ⟨?_, placed.2 root held⟩⟩
  rcases place_root held with same | ⟨old, before, same⟩
  · exact same ▸ inside.own
  · exact same ▸ (holding.root old before).own

end Builder

end Holding

/-! ## Attributes of tokens -/

/-- The element begins at one of the tokens, which has these attributes, each name once. -/
inductive Begins (tokens : List Token) (head : Head) : List SourceAttribute → Prop where
  | token {token : Token} (held : token ∈ tokens) {attributes : List SourceAttribute}
      (opens : token.Opens head.tag attributes) (starts : head.span.start = token.span.start) :
    Begins tokens head (Builder.distinctAttributes head.tag [] attributes).1

/-- The attributes of the token that the element begins at are accounted for, but for blank
conditions, and for objects of attributes behind which another one comes. -/
def AccountsFor (tokens : List Token) (diagnostics : List Diagnostic) (condition : Option String)
    (head : Head) : Prop :=
  ∃ items, Begins tokens head items ∧ ∀ item ∈ items,
    ¬ IsBlankCondition item → IsLastSpread items item → Accounted diagnostics condition head item

/-- The attributes of an element that is open. -/
inductive Expects (tokens : List Token) (diagnostics : List Diagnostic) (head : Head) : Prop where
  | verbatim (accounts : AccountsFor tokens diagnostics none head) (verbatim : head.isVerbatim = true)
  | plain {items : List SourceAttribute} (begins : Begins tokens head items)
      (plain : head.isVerbatim = false) (part : head.pending.Sublist items)
      (all : ∀ item ∈ items, head.Waits diagnostics item)

section Attributes

variable {tokens : List Token} {diagnostics others : List Diagnostic} {condition : Option String}
  {head rest : Head} {item : SourceAttribute} {items : List SourceAttribute}

theorem Begins.congr (begins : Begins tokens head items) (tag : rest.tag = head.tag)
    (start : rest.span.start = head.span.start) : Begins tokens rest items := by
  obtain ⟨held, opens, starts⟩ := begins
  rw [← tag] at opens ⊢
  exact .token held opens (start.trans starts)

theorem Accounted.transfer {otherCondition branchCondition : Option String} {span : Span}
    (accounted : Accounted diagnostics condition head item) (more : diagnostics ⊆ others)
    (structural : Structural condition head item →
      Structural otherCondition { head with span, branchCondition } item) :
    Accounted others otherCondition { head with span, branchCondition } item := by
  cases accounted with
  | reported reported => exact .reported (reported.mono more)
  | listed listed => exact .listed listed
  | structural old => exact .structural (structural old)
  | settled settled => exact .settled (settled.congr rfl rfl rfl rfl rfl rfl)
  | coded coded => exact .coded (coded.congr rfl)
  | spread spreads held => exact .spread spreads held
  | verbatim named held => exact .verbatim named held

theorem Accounted.joined (accounted : Accounted diagnostics none head item) :
    Accounted diagnostics head.branchCondition { head with branchCondition := none } item := by
  refine accounted.transfer (List.Subset.refl _) fun structural => ?_
  cases structural with
  | loop named read held => exact .loop named read held
  | condition named held => exact .condition named held
  | isElse named held => exact .isElse named held
  | once named held => exact .once named held
  | branch named held =>
    rcases held with held | held
    · exact .branch named (.inr held)
    · cases held

theorem Head.Waits.transfer {span : Span} (waits : head.Waits diagnostics item)
    (more : diagnostics ⊆ others) : Head.Waits others { head with span } item := by
  cases waits with
  | pending held => exact .pending held
  | blank blank => exact .blank blank
  | reported reported => exact .reported (reported.mono more)
  | structural structural => exact .structural (structural.congr rfl rfl rfl rfl rfl)

theorem AccountsFor.joined (accounts : AccountsFor tokens diagnostics none head) :
    AccountsFor tokens diagnostics head.branchCondition { head with branchCondition := none } := by
  obtain ⟨items, begins, all⟩ := accounts
  refine ⟨items, begins.congr rfl rfl, ?_⟩
  intro item held visible last
  exact (all item held visible last).joined

theorem AccountsFor.mono (accounts : AccountsFor tokens diagnostics condition head)
    (more : diagnostics ⊆ others) : AccountsFor tokens others condition head := by
  obtain ⟨items, begins, all⟩ := accounts
  refine ⟨items, begins, ?_⟩
  intro item held visible last
  exact (all item held visible last).transfer more id

theorem Expects.transfer (expects : Expects tokens diagnostics head) (more : diagnostics ⊆ others)
    (stop : Nat) : Expects tokens others { head with span := ⟨head.span.start, stop⟩ } := by
  cases expects with
  | verbatim accounts verbatim =>
    obtain ⟨items, begins, all⟩ := accounts
    refine .verbatim ⟨items, begins.congr rfl rfl, fun item held visible last => ?_⟩ verbatim
    exact (all item held visible last).transfer more fun old => old.congr rfl rfl rfl rfl rfl
  | plain begins plain part all =>
    exact .plain (begins.congr rfl rfl) plain part fun item held => (all item held).transfer more

theorem Expects.raw {items : List SourceAttribute} (raw : head.isVerbatim = true)
    (begins : Begins tokens head.takeVerbatim items)
    (all : ∀ item ∈ items, item ∈ head.pending ∨ item.name = "v-pre") :
    Expects tokens diagnostics head.takeVerbatim := by
  refine .verbatim ⟨items, begins, fun item held _ _ => ?_⟩ raw
  rcases all item held with left | named
  · refine .listed (Head.mem_entrySpans.mpr (.inl ?_))
    rw [Head.takeVerbatim, List.map_append, List.map_map]
    exact List.mem_append_right _ (List.mem_map_of_mem left)
  · exact .verbatim named raw

theorem Expects.mono (expects : Expects tokens diagnostics head) (more : diagnostics ⊆ others) :
    Expects tokens others head :=
  expects.transfer more head.span.stop

end Attributes

namespace Builder

section Attributes

variable {settings : Settings} {tokens : List Token}

theorem enter_expects {token : Token} (held : token ∈ tokens) {tag : String}
    {attributes : List SourceAttribute} (opens : token.Opens tag attributes) (outside : Builder)
    {diagnostics : List Diagnostic}
    (reported : (outside.enter (outside.freshHead settings tag
      (distinctAttributes tag [] attributes).1 token.span)).2.2 ⊆ diagnostics) :
    Expects tokens diagnostics (outside.enter (outside.freshHead settings tag
      (distinctAttributes tag [] attributes).1 token.span)).1 := by
  have begins : Begins tokens (outside.freshHead settings tag
      (distinctAttributes tag [] attributes).1 token.span) (distinctAttributes tag [] attributes).1 :=
    .token held opens rfl
  have pending : (outside.freshHead settings tag (distinctAttributes tag [] attributes).1
      token.span).pending = (distinctAttributes tag [] attributes).1 := rfl
  have fresh : (outside.freshHead settings tag (distinctAttributes tag [] attributes).1
      token.span).isVerbatim = false := rfl
  generalize outside.freshHead settings tag (distinctAttributes tag [] attributes).1 token.span =
    head at *
  generalize (distinctAttributes tag [] attributes).1 = items at *
  subst pending
  have kept := enter_keeps outside head
  have entered := begins.congr kept.tag (congrArg Span.start kept.span)
  cases region : outside.isVerbatim with
  | true =>
    have inside : outside.verbatimRoot.isSome = true := region
    have same : (outside.enter head).1 = { head with isVerbatim := true }.takeVerbatim := by
      simp only [enter, region, inside, if_true]
    rw [same] at entered ⊢
    exact .raw rfl entered fun item held => .inl held
  | false =>
    cases taken : head.take? "v-pre" with
    | some found =>
      obtain ⟨item, rest⟩ := found
      obtain ⟨named, pending, rfl, others⟩ := Head.take_spec taken
      have same : (outside.enter head).1 = { head with pending, isVerbatim := true }.takeVerbatim := by
        simp [enter, region, taken]
      rw [same] at entered ⊢
      refine .raw rfl entered fun other held => ?_
      rcases others.all other held with left | rfl
      · exact .inl left
      · exact .inr named
    | none =>
      have same : outside.enter head = (head.takeStructure.1, none, head.takeStructure.2) := by
        simp [enter, region, taken]
      obtain ⟨plain, part, waits⟩ := Head.takeStructure_waits head
      rw [same] at entered reported ⊢
      refine .plain entered (plain.trans fresh) part fun item held => ?_
      exact (waits item held).transfer reported

/-- All attributes of what has closed are accounted for, and those of what is open wait. -/
def Accounts (tokens : List Token) (builder : Builder) : Prop :=
  builder.Holding (Expects tokens builder.diagnostics) (AccountsFor tokens builder.diagnostics)

variable {builder before after : Builder} {element : Element}

theorem Holding.mono {diagnostics others : List Diagnostic}
    (holding : builder.Holding (Expects tokens diagnostics) (AccountsFor tokens diagnostics))
    (more : diagnostics ⊆ others) :
    builder.Holding (Expects tokens others) (AccountsFor tokens others) := by
  refine ⟨?_, ?_, ?_⟩
  · intro element held
    exact (holding.heads element held).mono more
  · intro element held
    exact Element.Holding.mono (holding.opened element held) fun _ _ old => old.mono more
  · intro root held
    obtain ⟨own, inside⟩ := holding.root root held
    exact ⟨own.mono more, Element.Holding.mono inside fun _ _ old => old.mono more⟩

theorem Accounts.close
    (platform : settings.extensions = [Web.classExtension, Web.styleExtension])
    (accounts : builder.Accounts tokens)
    (region : builder.isVerbatim = true → AccountsFor tokens builder.diagnostics none element.head)
    (plain : builder.isVerbatim = false → element.head.isVerbatim = false)
    (expects : Expects tokens builder.diagnostics element.head)
    (inside : element.Throughout (Element.Holding (AccountsFor tokens builder.diagnostics))) :
    (builder.close settings element).Accounts tokens := by
  -- The element has begun at a token with its tag and its start, so these have to stay.
  have preserves {α : Type} {field : Head → α}
      (kept : ∀ {head rest : Head}, head.Leaves rest → field rest = field head)
      (coded : ∀ (head : Head) (codes : Dictionary String),
        field { head with extensions := codes } = field head) :
      field (element.head.complete settings).1 = field element.head := by
    refine complete_preserves kept ?_ element.head
    rw [platform]
    intro extension held
    rcases List.mem_cons.mp held with rfl | held
    · exact takeBoth_preserves kept coded _ _ _ _
    · cases List.mem_singleton.mp held
      exact takeBoth_preserves kept coded _ _ _ _
  unfold Builder.close
  simp only
  generalize settled : (if builder.isVerbatim then (element.head, [])
    else element.head.complete settings) = final
  have own : AccountsFor tokens (builder.diagnostics ++ final.2) none final.1 := by
    rw [← settled]
    split
    · next verbatim => exact (region verbatim).mono (List.subset_append_left _ _)
    · next outside =>
      have outside := plain (by simpa using outside)
      cases expects with
      | verbatim accounts verbatim =>
        rw [outside] at verbatim
        cases verbatim
      | plain begins plain part all =>
        have tag := preserves (fun leaves => leaves.tag) (fun _ _ => rfl)
        have span := preserves (fun leaves => leaves.span) (fun _ _ => rfl)
        refine ⟨_, begins.congr tag (congrArg Span.start span), fun item held visible last => ?_⟩
        exact Head.complete_accounts platform element.head (all item held) visible (last.fewer part)
  have subset := closedChildren_subset builder.isPreformatted element.children
  generalize (if builder.isPreformatted then element.children
    else withoutTrailingSpaces element.children) = children at subset ⊢
  have more : builder.diagnostics ⊆ builder.diagnostics ++ final.2 := List.subset_append_left _ _
  have reported : (builder.report final.2).Holding (Expects tokens (builder.diagnostics ++ final.2))
      (AccountsFor tokens (builder.diagnostics ++ final.2)) := by
    obtain ⟨heads, opened, root⟩ := Holding.mono accounts more
    exact ⟨heads, opened, root⟩
  have closed : Element.HoldsAll (AccountsFor tokens (builder.diagnostics ++ final.2))
      { element with head := final.1, children } :=
    ⟨own, Element.Holding.fewer (Element.Holding.mono inside fun _ _ old => old.mono more) _ subset⟩
  have placed := reported.place closed own.joined
  obtain ⟨heads, opened, root⟩ := placed.mono (place_grows (builder.report final.2) _).reports
  exact ⟨heads, opened, root⟩

theorem verbatim_of_region {mode : Option Nat} {opened : List Element} (stack : Stack mode opened)
    (nested : IsNested opened) (region : mode.isSome = true) :
    ∀ innermost ∈ opened.head?, innermost.head.isVerbatim = true := by
  induction stack with
  | plain => cases region
  | root element verbatim raw all =>
    rintro _ ⟨⟩
    exact verbatim
  | @inner element id outer other raw behind ih =>
    rintro _ ⟨⟩
    cases outer with
    | nil => cases behind
    | cons next others =>
      obtain ⟨here, rest⟩ := List.isChain_cons_cons.mp nested
      exact here (ih rest region next rfl)

theorem Accounts.addLeaf (accounts : before.Accounts tokens) {parent : Element} {outer : List Element}
    (given : before.opened = parent :: outer) {node : Node} (leaf : ∀ child, node ≠ .element child)
    (opened : after.opened = parent.addChild node :: outer) (root : after.root = before.root)
    (more : before.diagnostics ⊆ after.diagnostics) : after.Accounts tokens := by
  obtain ⟨heads, inside, rootHolds⟩ := Holding.mono accounts more
  rw [given] at heads inside
  obtain ⟨head, otherHeads⟩ := List.forall_mem_cons.mp heads
  obtain ⟨first, others⟩ := List.forall_mem_cons.mp inside
  refine ⟨?_, ?_, root ▸ rootHolds⟩
  · rw [opened]
    exact List.forall_mem_cons.mpr ⟨head, otherHeads⟩
  · rw [opened]
    refine List.forall_mem_cons.mpr ⟨?_, others⟩
    exact Element.Holding.addLeaf first leaf

theorem Accounts.report (accounts : before.Accounts tokens) (diagnostics : List Diagnostic) :
    (before.report diagnostics).Accounts tokens := by
  obtain ⟨heads, opened, root⟩ := Holding.mono accounts
    (List.subset_append_left before.diagnostics diagnostics)
  exact ⟨heads, opened, root⟩

theorem Accounts.counted (accounts : before.Accounts tokens) :
    Accounts tokens { before with nextId := before.nextId + 1 } :=
  ⟨accounts.heads, accounts.opened, accounts.root⟩

theorem Accounts.text (accounts : before.Accounts tokens) (source raw : String) (span : Span) :
    (before.text settings source raw span).Accounts tokens := by
  have reads := text_reads settings source raw span before
  generalize before.text settings source raw span = after at reads ⊢
  cases reads with
  | leftOut diagnostics leaves => exact accounts.counted.report diagnostics
  | @added diagnostics parent outer given stays =>
    have leaf (child : Element) :
        Node.text (addedText settings raw span before parent) ≠ .element child :=
      fun same => Node.noConfusion same
    exact accounts.addLeaf given leaf rfl rfl (List.subset_append_left _ _)

theorem Accounts.comment (accounts : before.Accounts tokens) (content : String) (span : Span) :
    (before.comment settings content span).Accounts tokens := by
  unfold Builder.comment
  split
  · unfold updateParent
    split
    · exact ⟨accounts.heads, accounts.opened, accounts.root⟩
    · next parent outer given =>
      have innermost : before.opened = parent :: outer := given
      have leaf (child : Element) : Node.comment ⟨before.nextId, content, span⟩ ≠ .element child :=
        fun same => Node.noConfusion same
      exact accounts.addLeaf innermost leaf rfl rfl (List.Subset.refl _)
  · exact accounts

theorem Accounts.pop
    (platform : settings.extensions = [Web.classExtension, Web.styleExtension])
    (formed : before.Formed) (nested : IsNested before.opened) (accounts : before.Accounts tokens)
    {element : Element} {outer : List Element} (given : before.opened = element :: outer) (stop : Nat) :
    (({ before with opened := outer } : Builder).close settings
      { element with head := { element.head with span := ⟨element.head.span.start, stop⟩ } }).Accounts
        tokens := by
  have stack := formed.shape.stack
  obtain ⟨heads, opened, root⟩ := accounts
  rw [given] at heads opened nested stack
  obtain ⟨first, otherHeads⟩ := List.forall_mem_cons.mp heads
  obtain ⟨inside, others⟩ := List.forall_mem_cons.mp opened
  have popped : Accounts tokens { before with opened := outer } := ⟨otherHeads, others, root⟩
  have expects := first.transfer (List.Subset.refl _) stop
  refine popped.close platform ?_ ?_ expects (Element.Holding.fewer inside _ fun _ held => held)
  · intro region
    have verbatim := verbatim_of_region stack nested region element rfl
    cases expects with
    | verbatim accounts _ => exact accounts
    | plain _ plain _ _ =>
      rw [show element.head.isVerbatim = false from plain] at verbatim
      cases verbatim
  · intro outside
    have none : before.verbatimRoot = none := by simpa [isVerbatim] using outside
    rw [none] at stack
    cases stack with
    | plain all => exact (all element List.mem_cons_self).plain

theorem Accounts.stroke
    (platform : settings.extensions = [Web.classExtension, Web.styleExtension]) {source : String}
    (formed : before.Formed) (nested : IsNested before.opened) (accounts : before.Accounts tokens)
    (stroke : Stroke settings source tokens before after) : after.Accounts tokens := by
  cases stroke with
  | report diagnostics => exact accounts.report diagnostics
  | text raw span => exact accounts.text source raw span
  | comment content span => exact accounts.comment content span
  | @enter token held tag attributes opens reported =>
    have expects : Expects tokens before.diagnostics (before.enter (before.freshHead settings tag
        (distinctAttributes tag [] attributes).1 token.span)).1 := by
      refine enter_expects held opens before fun diagnostic inside => reported ?_
      exact List.mem_append_left _ (List.mem_append_right _ inside)
    refine ⟨?_, ?_, accounts.root⟩
    · exact List.forall_mem_cons.mpr ⟨expects, accounts.heads⟩
    · exact List.forall_mem_cons.mpr ⟨Element.Holding.fresh _, accounts.opened⟩
  | @lineBreak token held opens =>
    have begins := @Begins.token tokens (.new before.nextId "br" [] token.span) token held [] opens rfl
    refine accounts.counted.close platform (fun _ => ⟨[], begins, List.forall_mem_nil _⟩) (fun _ => rfl) ?_
      (Element.Holding.fresh _)
    exact .plain begins rfl (List.Sublist.refl _) (List.forall_mem_nil _)
  | @close element outer given stop => exact accounts.pop platform formed nested given stop

theorem Accounts.initial : Builder.initial.Accounts tokens := by
  refine ⟨?_, ?_, ?_⟩
  all_goals
    intro _ held
    cases held

theorem platform_isFaithful
    (platform : settings.extensions = [Web.classExtension, Web.styleExtension]) :
    settings.IsFaithful := by
  unfold Settings.IsFaithful
  rw [platform]
  exact List.forall_mem_cons.mpr
    ⟨classExtension_isFaithful, List.forall_mem_singleton.mpr styleExtension_isFaithful⟩

/-- Reading in strokes accounts for all attributes. -/
theorem Accounts.strokes
    (platform : settings.extensions = [Web.classExtension, Web.styleExtension]) {source : String}
    (named : ∀ token ∈ tokens, token.IsNamed) (strokes : Strokes settings source tokens .initial after) :
    after.Accounts tokens := by
  have faithful := platform_isFaithful platform
  have invariant : after.Formed ∧ after.InPlace settings.IsFaithful ∧ after.Accounts tokens := by
    refine strokes.keep (fun builder => builder.Formed ∧ builder.InPlace settings.IsFaithful ∧
      builder.Accounts tokens) ?_ ⟨.initial, .initial _, .initial⟩
    rintro first second stroke ⟨formed, placed, accounts⟩
    have both : second.Formed ∧ second.InPlace settings.IsFaithful := by
      refine (stroke.steps named).keep (fun builder => builder.Formed ∧
        builder.InPlace settings.IsFaithful) ?_ ⟨formed, placed⟩
      rintro before after step ⟨formed, placed⟩
      exact ⟨formed.step faithful step, placed.step (fun _ => formed) step⟩
    exact ⟨both.1, both.2, accounts.stroke platform formed (placed.nested faithful) stroke⟩
  exact invariant.2.2

end Attributes

end Builder

/-- On the web no attribute disappears silently, whatever the template is: of each element
in the tree, all attributes of the token that it begins at are accounted for, but for blank
conditions and for the earlier ones of several objects of attributes. -/
theorem parse_accounted {overlay : Overlay} (plain : overlay.extensions = []) (source : String) :
    let read := Document.parse (Web.settings.overlaid overlay) source
    ∀ root ∈ read.1.root, root.HoldsAll (AccountsFor (scan source) read.2) := by
  intro read
  have platform : (Web.settings.overlaid overlay).extensions =
      [Web.classExtension, Web.styleExtension] := by
    rw [Settings.overlaid, plain]
    rfl
  obtain ⟨final, strokes, same⟩ := parse_strokes (Web.settings.overlaid overlay) source
  have accounts := Builder.Accounts.strokes platform (scan_isNamed source) strokes
  intro root held
  simp only [read, same] at held ⊢
  exact accounts.root root held

/-- Rules on structure, extensions and what is left, in an element with branches. -/
def crowdedSource : String :=
  "<ul v-if=\"a\" class=\"b c\" :class=\"d\" v-bind=\"e\" v-once><li v-for=\"f in g\" :key=\"f\"" ++
    " @click=\"h\" #i></li></ul><ol v-else-if=\"j\" v-for=\"k\" l><slot :name=\"m\"></slot></ol>"

theorem crowdedSource_accounted :
    let read := Document.parse (Web.settings.overlaid .empty) crowdedSource
    Overlay.empty.extensions = [] ∧ ∃ root ∈ read.1.root,
      root.head.condition = some "a" ∧ root.branches.map Branch.condition = [some "j"] ∧
        read.2.map Diagnostic.problem = [.invalidLoop "k"] ∧
        root.HoldsAll (AccountsFor (scan crowdedSource) read.2) := by
  intro read
  have root : read.1.root.map (fun root => (root.head.condition, root.branches.map Branch.condition)) =
      some (some "a", [some "j"]) := by decide +kernel
  have problems : read.2.map Diagnostic.problem = [.invalidLoop "k"] := by decide +kernel
  obtain ⟨root, held, same⟩ := Option.map_eq_some_iff.mp root
  obtain ⟨condition, branches⟩ := Prod.mk.inj same
  exact ⟨rfl, root, held, condition, branches, problems, parse_accounted rfl crowdedSource root held⟩

/-- The attribute has a name that a rule on the place of an element or an extension asks for. -/
def IsOwned (item : SourceAttribute) : Prop :=
  (∃ name ∈ ["key", "ref", "slot", "name", "is", "class", "style"],
      item.name = name ∨ item.name = ":" ++ name ∨ item.name = "v-bind:" ++ name) ∨
    Head.isSlotName item.name = true

instance (item : SourceAttribute) : Decidable (IsOwned item) := inferInstanceAs (Decidable (_ ∨ _))

section Unowned

variable {diagnostics : List Diagnostic} {condition : Option String} {head : Head}
  {item : SourceAttribute}

theorem Settled.isOwned (settled : Settled head item) : IsOwned item := by
  have coded {name code : String} (codes : Codes item name code)
      (known : name ∈ ["key", "ref", "slot", "name", "is", "class", "style"]) : IsOwned item := by
    cases codes with
    | binding binds => exact .inl ⟨name, known, .inr binds⟩
    | literal named => exact .inl ⟨name, known, .inl named⟩
  cases settled with
  | key codes _ => exact coded codes (by decide)
  | ref named _ => exact .inl ⟨"ref", by decide, .inl named⟩
  | boundRef binds _ => exact .inl ⟨"ref", by decide, .inr binds⟩
  | slot codes _ => exact coded codes (by decide)
  | slotName named _ => exact .inr named
  | outlet _ codes _ => exact coded codes (by decide)
  | component codes _ => exact coded codes (by decide)

theorem Coded.isOwned (coded : Coded head item) : IsOwned item := by
  cases coded with
  | classes named _ => exact .inl ⟨"class", by decide, .inl named⟩
  | boundClass binds _ => exact .inl ⟨"class", by decide, .inr binds⟩
  | styles named _ => exact .inl ⟨"style", by decide, .inl named⟩
  | boundStyle binds _ => exact .inl ⟨"style", by decide, .inr binds⟩

theorem Accounted.ofUnowned (accounted : Accounted [] condition head item) (unowned : ¬ IsOwned item)
    (entries : head.entrySpans = []) : Structural condition head item ∨
      (IsSpread item ∧ head.spread = some item.text) ∨ item.name = "v-pre" := by
  cases accounted with
  | reported reported =>
    obtain ⟨diagnostic, held, -⟩ := reported
    cases held
  | listed listed =>
    rw [entries] at listed
    cases listed
  | structural structural => exact .inl structural
  | settled settled => exact absurd settled.isOwned unowned
  | coded coded => exact absurd coded.isOwned unowned
  | spread spreads held => exact .inr (.inl ⟨spreads, held⟩)
  | verbatim named _ => exact .inr (.inr named)

end Unowned

/-- A condition that is blank, and two objects of attributes. -/
def silentSource : String := "<p v-if=\"\" v-bind=\"a\" v-bind.prop=\"b\"></p>"

/-- Neither the blank condition nor the first object is found anywhere. -/
theorem silentSource_loses :
    let read := Document.parse (Web.settings.overlaid .empty) silentSource
    ∃ root ∈ read.1.root, ∃ first second last,
      Begins (scan silentSource) root.head [first, second, last] ∧
        IsBlankCondition first ∧ ¬ IsLastSpread [first, second, last] second ∧
          ∀ condition, ¬ Accounted read.2 condition root.head first ∧
            ¬ Accounted read.2 condition root.head second := by
  intro read
  let first : SourceAttribute := ⟨"v-if", some "", ⟨3, 10⟩⟩
  let second : SourceAttribute := ⟨"v-bind", some "a", ⟨11, 21⟩⟩
  let last : SourceAttribute := ⟨"v-bind.prop", some "b", ⟨22, 37⟩⟩
  have fields : read.1.root.map (fun root => (root.head.tag, root.head.span.start,
      root.head.entrySpans, root.head.condition, root.head.spread)) =
        some ("p", 0, [], none, some "b") := by decide +kernel
  have silent : read.2 = [] := by decide +kernel
  have held : Token.startTag "p" [first, second, last] false ⟨0, 38⟩ ∈ scan silentSource := by
    decide +kernel
  have items : (Builder.distinctAttributes "p" [] [first, second, last]).1 = [first, second, last] := by
    decide +kernel
  obtain ⟨root, there, same⟩ := Option.map_eq_some_iff.mp fields
  simp only [Prod.mk.injEq] at same
  obtain ⟨tag, start, entries, condition, spread⟩ := same
  have begins : Begins (scan silentSource) root.head
      (Builder.distinctAttributes root.head.tag [] [first, second, last]).1 :=
    .token held (tag ▸ .startTag "p" [first, second, last] false ⟨0, 38⟩) start
  rw [tag, items] at begins
  rw [silent]
  refine ⟨root, there, first, second, last, begins, by decide, ?_, fun other => ⟨?_, ?_⟩⟩
  · intro alone
    exact alone (by decide +kernel) last (by decide +kernel) (by decide +kernel)
  · intro accounted
    rcases accounted.ofUnowned (by decide +kernel) entries with structural | ⟨spreads, -⟩ | named
    · cases structural with
      | condition _ held =>
        rw [condition] at held
        cases held
      | loop named _ _ => exact absurd named (by decide)
      | isElse named _ => exact absurd named (by decide)
      | branch named _ => exact absurd named (by decide)
      | once named _ => exact absurd named (by decide)
    · exact absurd spreads (by decide +kernel)
    · exact absurd named (by decide)
  · intro accounted
    rcases accounted.ofUnowned (by decide +kernel) entries with structural | ⟨-, held⟩ | named
    · cases structural with
      | condition named _ => exact absurd named (by decide)
      | loop named _ _ => exact absurd named (by decide)
      | isElse named _ => exact absurd named (by decide)
      | branch named _ => exact absurd named (by decide)
      | once named _ => exact absurd named (by decide)
    · rw [spread] at held
      exact absurd held (by decide)
    · exact absurd named (by decide)

end Templating.Template
