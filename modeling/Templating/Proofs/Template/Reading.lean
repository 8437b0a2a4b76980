import Templating.Proofs.Markup.Scan
import Templating.Proofs.Template.Provenance
import Templating.Template.Builder
/-!
# Trees that are read

A tree that is taken as it is written holds no source at all; everywhere else
the parts of a head stem from its own attributes.  Each token keeps this, with
the stack of open elements split where the verbatim part begins.
-/
set_option autoImplicit false

namespace Templating.Template

open Templating.Text Templating.Data Templating.Markup

/-- Nothing in the head is source. -/
structure IsRaw (head : Head) : Prop where
  attributes : ∀ item ∈ head.attributes, item.isDynamic = false
  props : head.props = []
  listeners : head.listeners = []
  nativeListeners : head.nativeListeners = []
  directives : head.directives = []
  key : head.key = none
  ref : head.ref = none
  condition : head.condition = none
  branchCondition : head.branchCondition = none
  isElse : head.isElse = false
  loop : head.loop = none
  isOnce : head.isOnce = false
  component : head.component = none
  outletName : head.outletName = none
  slotTarget : head.slotTarget = none
  spread : head.spread = none
  extensions : head.extensions = []

mutual

def RawElement : Element → Prop
  | ⟨head, children, branches⟩ =>
    IsRaw head ∧ IsTagName head.tag ∧ RawNodes children ∧ branches = []

def RawNode : Node → Prop
  | .element element => RawElement element
  | .text run => run.segments = []
  | .comment _ => True

def RawNodes : List Node → Prop
  | [] => True
  | node :: rest => RawNode node ∧ RawNodes rest

end

mutual

/-- All source in the tree stems from attributes of the same element; verbatim
trees hold none. -/
def FormedElement : Element → Prop
  | ⟨head, children, branches⟩ =>
    if head.isVerbatim then RawElement ⟨head, children, branches⟩
    else
      IsTagName head.tag ∧ Ready head head ∧ FormedNodes children ∧ FormedBranches branches

def FormedNode : Node → Prop
  | .element element => FormedElement element
  | _ => True

def FormedNodes : List Node → Prop
  | [] => True
  | node :: rest => FormedNode node ∧ FormedNodes rest

def FormedBranches : List Branch → Prop
  | [] => True
  | ⟨condition, block⟩ :: rest =>
    (∀ code ∈ condition, Given.holds block.head.given "v-else-if" code) ∧
      block.head.isVerbatim = false ∧ FormedElement block ∧ FormedBranches rest

end

theorem rawNodes_iff (nodes : List Node) : RawNodes nodes ↔ ∀ node ∈ nodes, RawNode node := by
  induction nodes with
  | nil => simp [RawNodes]
  | cons node rest ih => simp [RawNodes, ih]

theorem formedNodes_iff (nodes : List Node) : FormedNodes nodes ↔ ∀ node ∈ nodes, FormedNode node := by
  induction nodes with
  | nil => simp [FormedNodes]
  | cons node rest ih => simp [FormedNodes, ih]

theorem formedBranches_concat {branches : List Branch} {branch : Branch}
    (formed : FormedBranches branches)
    (condition : ∀ code ∈ branch.condition, Given.holds branch.block.head.given "v-else-if" code)
    (plain : branch.block.head.isVerbatim = false) (block : FormedElement branch.block) :
    FormedBranches (branches ++ [branch]) := by
  induction branches with
  | nil =>
    obtain ⟨given, inside⟩ := branch
    exact And.intro condition (And.intro plain (And.intro block trivial))
  | cons first others ih =>
    obtain ⟨given, inside⟩ := first
    exact And.intro formed.1 (And.intro formed.2.1 (And.intro formed.2.2.1 (ih formed.2.2.2)))

theorem rawElement_iff (element : Element) :
    RawElement element ↔
      IsRaw element.head ∧ IsTagName element.head.tag ∧ RawNodes element.children ∧
        element.branches = [] := by
  obtain ⟨head, children, branches⟩ := element
  exact Iff.rfl

theorem formedElement_raw (element : Element) (verbatim : element.head.isVerbatim = true) :
    FormedElement element ↔ RawElement element := by
  obtain ⟨head, children, branches⟩ := element
  rw [FormedElement, if_pos verbatim]

theorem formedElement_plain (element : Element) (plain : element.head.isVerbatim = false) :
    FormedElement element ↔
      IsTagName element.head.tag ∧ Ready element.head element.head ∧
        FormedNodes element.children ∧ FormedBranches element.branches := by
  obtain ⟨head, children, branches⟩ := element
  rw [FormedElement, if_neg (by simpa using plain)]

theorem Ready.self {start head : Head} (ready : Ready start head) : Ready head head := by
  have same := ready.same
  exact
    { ready with
      same := rfl, id := rfl, tag := rfl, isVerbatim := rfl
      pending := by rw [same]; exact ready.pending
      attributes := by rw [same]; exact ready.attributes
      props := by rw [same]; exact ready.props
      listeners := by rw [same]; exact ready.listeners
      nativeListeners := by rw [same]; exact ready.nativeListeners
      directives := by rw [same]; exact ready.directives
      key := by rw [same]; exact ready.key
      ref := by rw [same]; exact ready.ref
      condition := by rw [same]; exact ready.condition
      branchCondition := by rw [same]; exact ready.branchCondition
      loop := by rw [same]; exact ready.loop
      component := by rw [same]; exact ready.component
      outletName := by rw [same]; exact ready.outletName
      slotTarget := by rw [same]; exact ready.slotTarget
      spread := by rw [same]; exact ready.spread
      extensions := by rw [same]; exact ready.extensions }

/-! ## The stack of open elements -/

/-- The element is not verbatim, and well formed so far. -/
structure PlainElement (element : Element) : Prop where
  plain : element.head.isVerbatim = false
  formed : FormedElement element

/-- The open elements, where `mode` holds the number of the verbatim root: all
inside it is raw, and all outside plain. -/
inductive Stack : Option Nat → List Element → Prop where
  | plain {opened : List Element} (all : ∀ element ∈ opened, PlainElement element) :
    Stack none opened
  | root (element : Element) {outer : List Element} (verbatim : element.head.isVerbatim = true)
      (raw : RawElement element) (all : ∀ other ∈ outer, PlainElement other) :
    Stack (some element.head.id) (element :: outer)
  | inner (element : Element) {id : Nat} {outer : List Element} (other : element.head.id ≠ id)
      (raw : RawElement element) (behind : Stack (some id) outer) : Stack (some id) (element :: outer)

theorem Stack.withChildren {mode : Option Nat} {parent : Element} {outer : List Element}
    (stack : Stack mode (parent :: outer)) {children : List Node}
    (formed : mode = none → FormedNodes parent.children → FormedNodes children)
    (raw : mode.isSome = true → RawNodes parent.children → RawNodes children) :
    Stack mode ({ parent with children } :: outer) := by
  obtain ⟨head, old, branches⟩ := parent
  cases stack with
  | plain all =>
    refine .plain fun element held => ?_
    rcases List.mem_cons.mp held with rfl | held
    · obtain ⟨plain, given⟩ := all _ List.mem_cons_self
      rw [formedElement_plain _ plain] at given
      refine ⟨plain, (formedElement_plain ⟨head, children, branches⟩ plain).mpr ?_⟩
      exact ⟨given.1, given.2.1, formed rfl given.2.2.1, given.2.2.2⟩
    · exact all element (List.mem_cons_of_mem _ held)
  | root _ verbatim given all =>
    have changed : RawElement ⟨head, children, branches⟩ :=
      ⟨given.1, given.2.1, raw rfl given.2.2.1, given.2.2.2⟩
    exact .root ⟨head, children, branches⟩ verbatim changed all
  | inner _ other given behind =>
    have changed : RawElement ⟨head, children, branches⟩ :=
      ⟨given.1, given.2.1, raw rfl given.2.2.1, given.2.2.2⟩
    exact .inner ⟨head, children, branches⟩ other changed behind

theorem Stack.withSpan {mode : Option Nat} {element : Element} {outer : List Element}
    (stack : Stack mode (element :: outer)) (span : Span) :
    Stack mode ({ element with head := { element.head with span } } :: outer) := by
  obtain ⟨head, children, branches⟩ := element
  have rawHead : IsRaw head → IsRaw { head with span } := fun raw => { raw with }
  cases stack with
  | plain all =>
    refine .plain fun other held => ?_
    rcases List.mem_cons.mp held with rfl | held
    · obtain ⟨plain, given⟩ := all _ List.mem_cons_self
      obtain ⟨named, ready, inside⟩ := (formedElement_plain _ plain).mp given
      refine ⟨plain, (formedElement_plain ⟨{ head with span }, children, branches⟩ plain).mpr ⟨named, ?_, inside⟩⟩
      exact { ready with }
    · exact all other (List.mem_cons_of_mem _ held)
  | root _ verbatim given all =>
    have changed : RawElement ⟨{ head with span }, children, branches⟩ := ⟨rawHead given.1, given.2⟩
    exact .root ⟨{ head with span }, children, branches⟩ verbatim changed all
  | inner _ other given behind =>
    have changed : RawElement ⟨{ head with span }, children, branches⟩ := ⟨rawHead given.1, given.2⟩
    exact .inner ⟨{ head with span }, children, branches⟩ other changed behind

theorem dropToElement_subset (nodes : List Node) : ∀ node ∈ (dropToElement nodes).1, node ∈ nodes := by
  induction nodes with
  | nil => exact fun node held => held
  | cons first earlier ih =>
    intro node held
    cases first with
    | text run => exact List.mem_cons_of_mem _ (ih node held)
    | comment comment => exact List.mem_cons_of_mem _ (ih node held)
    | element element => exact held

theorem FormedElement.parts {element : Element} (formed : FormedElement element)
    (noRaw : ¬ IsRaw element.head) :
    element.head.isVerbatim = false ∧ IsTagName element.head.tag ∧ Ready element.head element.head ∧
      FormedNodes element.children ∧ FormedBranches element.branches := by
  cases verbatim : element.head.isVerbatim with
  | true =>
    exact absurd ((rawElement_iff element).mp ((formedElement_raw _ verbatim).mp formed)).1 noRaw
  | false => exact ⟨rfl, (formedElement_plain _ verbatim).mp formed⟩

theorem addBranch_formed {previous branch : Element} (formed : FormedElement previous)
    (conditional : previous.head.condition.isSome = true) (formedBranch : FormedElement branch)
    (isBranch : branch.head.isBranch = true) : FormedElement (previous.addBranch branch) := by
  obtain ⟨plain, named, ready, children, branches⟩ :=
    formed.parts fun raw => by simp [raw.condition] at conditional
  obtain ⟨plainBranch, namedBranch, readyBranch, childrenBranch, branchesBranch⟩ :=
    formedBranch.parts fun raw => by
      simp [Head.isBranch, raw.branchCondition, raw.isElse] at isBranch
  refine (formedElement_plain (previous.addBranch branch) plain).mpr
    ⟨named, ready, children, ?_⟩
  refine formedBranches_concat branches readyBranch.branchCondition plainBranch ?_
  refine (formedElement_plain branch.asBranch.block plainBranch).mpr
    ⟨namedBranch, ?_, childrenBranch, branchesBranch⟩
  exact { readyBranch with branchCondition := fun _ held => by cases held }

theorem attachBranch_formed {parent branch : Element} (formed : FormedNodes parent.children)
    (formedBranch : FormedElement branch) (isBranch : branch.head.isBranch = true) :
    ∃ children, (attachBranch parent branch).1 = { parent with children } ∧
      FormedNodes children := by
  rw [formedNodes_iff] at formed
  have kept : ∀ node ∈ (dropToElement parent.children.reverse).1, FormedNode node := fun node held =>
    formed node (List.mem_reverse.mp (dropToElement_subset _ node held))
  have reversed {nodes : List Node} (all : ∀ node ∈ nodes, FormedNode node) :
      FormedNodes nodes.reverse :=
    (formedNodes_iff _).mpr fun node held => all node (List.mem_reverse.mp held)
  unfold attachBranch
  simp only
  generalize (dropToElement parent.children.reverse).2 = diagnostics
  generalize (dropToElement parent.children.reverse).1 = backwards at kept ⊢
  split
  · next previous earlier =>
    split
    · next conditional =>
      refine ⟨_, rfl, reversed fun node held => ?_⟩
      rcases List.mem_cons.mp held with rfl | held
      · exact addBranch_formed (kept _ List.mem_cons_self) conditional formedBranch isBranch
      · exact kept node (List.mem_cons_of_mem _ held)
    · exact ⟨_, rfl, reversed kept⟩
  · exact ⟨_, rfl, reversed kept⟩

namespace Builder

structure Shape (mode : Option Nat) (builder : Builder) : Prop where
  stack : Stack mode builder.opened
  root : ∀ element ∈ builder.root, FormedElement element

structure Formed (builder : Builder) : Prop where
  shape : Shape builder.verbatimRoot builder
  bound : ∀ id ∈ builder.verbatimRoot, id < builder.nextId

theorem Formed.initial : Builder.initial.Formed where
  shape := ⟨.plain (fun _ held => by cases held), fun _ held => by cases held⟩
  bound _ held := by cases held

theorem Shape.place {mode : Option Nat} {builder : Builder} {element : Element}
    (shape : Shape mode builder) (formed : mode = none → FormedElement element)
    (raw : mode.isSome = true → RawElement element) : Shape mode (builder.place element) := by
  obtain ⟨stack, root⟩ := shape
  unfold Builder.place
  cases given : builder.opened with
  | cons parent outer =>
    rw [given] at stack
    simp only
    split
    · exact ⟨given ▸ stack, root⟩
    · split
      · next isBranch =>
        -- Inside a verbatim region all is raw, and a raw head asks for no element before it.
        have outside : mode = none := by
          cases mode with
          | none => rfl
          | some id =>
            have rawHead := (rawElement_iff element).mp (raw rfl) |>.1
            simp [Head.isBranch, rawHead.branchCondition, rawHead.isElse] at isBranch
        subst outside
        have formedParent : FormedNodes parent.children := by
          cases stack with
          | plain all =>
            obtain ⟨plain, formedParent⟩ := all _ List.mem_cons_self
            exact ((formedElement_plain _ plain).mp formedParent).2.2.1
        obtain ⟨children, same, formedAll⟩ := attachBranch_formed formedParent (formed rfl) isBranch
        rw [same]
        exact ⟨stack.withChildren (fun _ _ => formedAll) (fun inside => by cases inside), root⟩
      · refine ⟨stack.withChildren (fun outside old => ?_) fun inside old => ?_, root⟩
        · rw [formedNodes_iff] at old ⊢
          exact forall_mem_concat old (formed outside)
        · rw [rawNodes_iff] at old ⊢
          exact forall_mem_concat old (raw inside)
  | nil =>
    have outside : mode = none := by
      rw [given] at stack
      cases stack
      rfl
    have formed := formed outside
    simp only
    split
    · refine ⟨given ▸ stack, ?_⟩
      rintro _ ⟨⟩
      exact formed
    · next previous held =>
      have formedPrevious := root previous held
      split
      · next joins =>
        simp only [Bool.and_eq_true] at joins
        refine ⟨given ▸ stack, ?_⟩
        rintro _ ⟨⟩
        exact addBranch_formed formedPrevious joins.1 formed joins.2
      · exact ⟨given ▸ stack, root⟩

theorem closedChildren_subset (isPreformatted : Bool) (children : List Node) :
    ∀ node ∈ (if isPreformatted then children else withoutTrailingSpaces children),
      node ∈ children := by
  intro node held
  split at held
  · exact held
  · exact List.mem_reverse.mp ((List.dropWhile_sublist _).subset (List.mem_reverse.mp held))

theorem place_nextId (builder : Builder) (element : Element) :
    (builder.place element).nextId = builder.nextId := by
  unfold place
  repeat' split
  all_goals rfl

theorem place_verbatimRoot (builder : Builder) (element : Element) :
    (builder.place element).verbatimRoot = builder.verbatimRoot := by
  unfold place
  repeat' split
  all_goals rfl

theorem leave_formed {settings : Settings} (mode : Option Nat) {builder : Builder} {head : Head}
    (shape : Shape mode builder)
    (left : (if builder.verbatimRoot == some head.id then none else builder.verbatimRoot) = mode)
    (bound : ∀ id ∈ mode, id < builder.nextId) : (builder.leave settings head).Formed := by
  subst left
  exact ⟨⟨shape.stack, shape.root⟩, bound⟩

variable {settings : Settings} (faithful : ∀ extension ∈ settings.extensions, extension.IsFaithful)

include faithful

theorem close_formed {builder : Builder} {element : Element}
    (stack : Stack builder.verbatimRoot (element :: builder.opened))
    (root : ∀ element ∈ builder.root, FormedElement element)
    (bound : ∀ id ∈ builder.verbatimRoot, id < builder.nextId) :
    (builder.close settings element).Formed := by
  obtain ⟨opened, rootElement, nextId, mode, isPreformatted, diagnostics⟩ := builder
  obtain ⟨head, children, branches⟩ := element
  simp only at stack root bound
  unfold close
  simp only
  have subset := closedChildren_subset isPreformatted children
  generalize (if isPreformatted then children else withoutTrailingSpaces children) = kept at subset ⊢
  have keptRaw (old : RawNodes children) : RawNodes kept := by
    rw [rawNodes_iff] at old ⊢
    exact fun node held => old node (subset node held)
  have keptFormed (old : FormedNodes children) : FormedNodes kept := by
    rw [formedNodes_iff] at old ⊢
    exact fun node held => old node (subset node held)
  -- What closes is in no verbatim region, has opened one, or is inside of one.
  cases stack with
  | plain all =>
    obtain ⟨plain, formed⟩ := all _ List.mem_cons_self
    obtain ⟨named, ready, formedChildren, formedBranches⟩ := (formedElement_plain _ plain).mp formed
    simp only [isVerbatim, Option.isSome_none, Bool.false_eq_true, if_false]
    have completed := Ready.complete ready faithful
    generalize (head.complete settings).2 = others
    generalize (head.complete settings).1 = final at completed ⊢
    have formedFinal : FormedElement ⟨final, kept, branches⟩ :=
      (formedElement_plain _ (completed.isVerbatim.trans plain)).mpr
        ⟨completed.tag ▸ named, completed.self, keptFormed formedChildren, formedBranches⟩
    refine leave_formed none
      (Shape.place ?_ (fun _ => formedFinal) fun inside => by cases inside)
      (by simp [place_verbatimRoot, report]) fun _ inside => by cases inside
    exact ⟨.plain fun other held => all other (List.mem_cons_of_mem _ held), root⟩
  | root _ verbatim raw all =>
    simp only [isVerbatim, Option.isSome_some, if_true]
    have formed : FormedElement ⟨head, kept, branches⟩ :=
      (formedElement_raw ⟨head, kept, branches⟩ verbatim).mpr
        ⟨raw.1, raw.2.1, keptRaw raw.2.2.1, raw.2.2.2⟩
    exact leave_formed none
      (Shape.place ⟨.plain all, root⟩ (fun _ => formed) fun inside => by cases inside)
      (by simp [place_verbatimRoot, report]) fun _ inside => by cases inside
  | @inner _ id _ other raw behind =>
    simp only [isVerbatim, Option.isSome_some, if_true]
    have kept : RawElement ⟨head, kept, branches⟩ :=
      ⟨raw.1, raw.2.1, keptRaw raw.2.2.1, raw.2.2.2⟩
    have stays : id ≠ head.id := fun same => other same.symm
    exact leave_formed (some id)
      (Shape.place ⟨behind, root⟩ (fun outside => by cases outside) fun _ => kept)
      (by simp [place_verbatimRoot, report, stays]) (by simpa [place_nextId, report] using bound)

theorem Formed.closeUnmatched {builder : Builder} (formed : builder.Formed) :
    (builder.closeUnmatched settings).Formed := by
  unfold Builder.closeUnmatched
  split
  · exact formed
  · next element outer given =>
    exact close_formed faithful (given ▸ formed.shape.stack) formed.shape.root formed.bound

theorem Formed.closeAllUnmatched {builder : Builder} (formed : builder.Formed) (count : Nat) :
    (builder.closeAllUnmatched settings count).Formed := by
  induction count generalizing builder with
  | zero => exact formed
  | succ count ih => exact ih (formed.closeUnmatched faithful)

theorem Formed.closeMatched {builder : Builder} (formed : builder.Formed) (stop : Nat) :
    (builder.closeMatched settings stop).Formed := by
  unfold Builder.closeMatched
  split
  · exact formed
  · next element outer given =>
    have stack := formed.shape.stack
    rw [given] at stack
    exact close_formed faithful (stack.withSpan _) formed.shape.root formed.bound

theorem Formed.closeThrough {builder : Builder} (formed : builder.Formed) (tag : String)
    (span : Span) : (builder.closeThrough settings tag span).Formed := by
  unfold Builder.closeThrough
  split
  · exact formed
  · exact (formed.closeAllUnmatched faithful _).closeMatched faithful _

theorem Formed.closeBefore {builder : Builder} (formed : builder.Formed) (tag : String)
    (span : Span) : (builder.closeBefore settings tag span).Formed := by
  have outside : (if (builder.opened.head?.any fun element => element.head.tag == "p") &&
      settings.platform.isNonPhrasing tag then
        builder.closeThrough settings "p" ⟨span.start, span.start⟩ else builder).Formed := by
    split
    · exact formed.closeThrough faithful _ _
    · exact formed
  unfold Builder.closeBefore
  simp only
  generalize (if (builder.opened.head?.any fun element => element.head.tag == "p") &&
    settings.platform.isNonPhrasing tag then
      builder.closeThrough settings "p" ⟨span.start, span.start⟩ else builder) = before at outside ⊢
  split
  · exact outside.closeThrough faithful _ _
  · exact outside

omit faithful in
theorem Formed.withNextId {builder : Builder} (formed : builder.Formed) :
    Formed { builder with nextId := builder.nextId + 1 } :=
  ⟨⟨formed.shape.stack, formed.shape.root⟩, fun id held => Nat.lt_succ_of_lt (formed.bound id held)⟩

omit faithful in
theorem Formed.report {builder : Builder} (formed : builder.Formed) (diagnostics : List Diagnostic) :
    (builder.report diagnostics).Formed :=
  ⟨⟨formed.shape.stack, formed.shape.root⟩, formed.bound⟩

/-! ## Start tags -/

omit faithful in
theorem distinctAttributes_nodup (tag : String) (seen : List String) (items : List SourceAttribute) :
    (((distinctAttributes tag seen items).1.map SourceAttribute.name).Nodup) ∧
      ∀ item ∈ (distinctAttributes tag seen items).1, item.name ∉ seen := by
  induction items generalizing seen with
  | nil => exact ⟨List.nodup_nil, fun _ held => by cases held⟩
  | cons item rest ih =>
    unfold distinctAttributes
    split
    · exact ih seen
    · next fresh =>
      obtain ⟨distinct, others⟩ := ih (item.name :: seen)
      simp only [List.map_cons, List.nodup_cons, List.mem_map, not_exists, not_and]
      refine ⟨⟨fun other held same => ?_, distinct⟩, fun other held => ?_⟩
      · exact others other held (same ▸ List.mem_cons_self)
      · rcases List.mem_cons.mp held with rfl | held
        · simpa using fresh
        · exact fun inside => others other held (List.mem_cons_of_mem _ inside)

omit faithful in
theorem takeVerbatim_isRaw {head : Head} (raw : IsRaw head) : IsRaw head.takeVerbatim where
  __ := raw
  attributes item held := by
    rcases List.mem_append.mp held with held | held
    · exact raw.attributes item held
    · obtain ⟨given, -, rfl⟩ := List.mem_map.mp held
      rfl

omit faithful in
theorem new_isRaw (id : Nat) (tag : String) (items : List SourceAttribute) (span : Span) :
    IsRaw (Head.new id tag items span) := by
  constructor
  case attributes => exact fun _ held => by cases held
  all_goals rfl

theorem open_formed {outside : Builder} {mode : Option Nat} {element : Element}
    (root : ∀ element ∈ outside.root, FormedElement element)
    (stack : Stack mode (element :: outside.opened)) (bound : ∀ id ∈ mode, id < outside.nextId + 1)
    {isPreformatted closes : Bool} {diagnostics : List Diagnostic} :
    let inside := { outside with
      nextId := outside.nextId + 1, verbatimRoot := mode, isPreformatted }.report diagnostics
    (if closes then inside.close settings element
      else { inside with opened := element :: inside.opened }).Formed := by
  simp only
  split
  · exact close_formed faithful stack root bound
  · exact ⟨⟨stack, root⟩, bound⟩

omit faithful in
theorem enter_stack {outside : Builder} (formed : outside.Formed) (fresh : Head)
    (named : IsTagName fresh.tag) (stems : Provenance fresh fresh) (raw : IsRaw fresh)
    (plain : fresh.isVerbatim = false) (number : fresh.id = outside.nextId) :
    Stack (outside.enter fresh).2.1 (⟨(outside.enter fresh).1, [], []⟩ :: outside.opened) ∧
      ∀ id ∈ (outside.enter fresh).2.1, id < outside.nextId + 1 := by
  obtain ⟨⟨stack, -⟩, bound⟩ := formed
  unfold enter isVerbatim
  cases mode : outside.verbatimRoot with
  | some id =>
    rw [mode] at stack
    have less := bound id (by rw [mode]; rfl)
    simp only [Option.isSome_some, if_true]
    refine ⟨.inner _ ?_ ⟨takeVerbatim_isRaw { raw with }, named, trivial, rfl⟩ stack, ?_⟩
    · simp only [Head.takeVerbatim]
      omega
    · rintro _ ⟨⟩
      omega
  | none =>
    rw [mode] at stack
    cases stack with
    | plain all =>
      simp only [Option.isSome_none, Bool.false_eq_true, if_false]
      cases taken : fresh.take? "v-pre" with
      | some found =>
        obtain ⟨item, rest⟩ := found
        obtain ⟨-, -, -, rfl⟩ := stems.takeFirst taken
        simp only [Option.isSome_some, if_true]
        constructor
        · have opened : RawElement ⟨Head.takeVerbatim { fresh with
              pending := fresh.pending.eraseP fun item => item.name == "v-pre", isVerbatim := true },
              [], []⟩ := ⟨takeVerbatim_isRaw { raw with }, named, trivial, rfl⟩
          exact .root _ rfl opened all
        · rintro _ ⟨⟩
          omega
      | none =>
        simp only [Option.isSome_none, Bool.false_eq_true, if_false]
        have ready := stems.takeStructure
        refine ⟨.plain fun element held => ?_, fun _ held => by cases held⟩
        rcases List.mem_cons.mp held with rfl | held
        · refine ⟨ready.isVerbatim.trans plain, (formedElement_plain _ ?_).mpr ?_⟩
          · exact ready.isVerbatim.trans plain
          · exact ⟨ready.tag ▸ named, ready.self, trivial, trivial⟩
        · exact all element held

theorem Formed.startTag {builder : Builder} (formed : builder.Formed) {tag : String}
    (named : IsTagName tag) (attributes : List SourceAttribute) (selfClosing : Bool) (span : Span) :
    (builder.startTag settings tag attributes selfClosing span).Formed := by
  have outsideFormed := formed.closeBefore faithful tag span
  have names := (distinctAttributes_nodup tag [] attributes).1
  unfold Builder.startTag
  simp only
  generalize builder.closeBefore settings tag span = outside at outsideFormed ⊢
  generalize (distinctAttributes tag [] attributes).2 = duplicates
  generalize (distinctAttributes tag [] attributes).1 = distinct at names ⊢
  have stems := Provenance.new outside.nextId tag span names
  have raw := new_isRaw outside.nextId tag distinct span
  have opened := enter_stack outsideFormed (outside.freshHead settings tag distinct span) named
    { stems with } { raw with } rfl rfl
  exact open_formed faithful outsideFormed.shape.root opened.1 opened.2

/-! ## Other tokens -/

theorem Formed.endTag {builder : Builder} (formed : builder.Formed) (tag : String) (span : Span) :
    (builder.endTag settings tag span).Formed := by
  unfold Builder.endTag
  split
  · exact formed.closeThrough faithful _ _
  · split
    · have names : (([] : List SourceAttribute).map SourceAttribute.name).Nodup := List.nodup_nil
      have stems := Provenance.new builder.nextId "br" span names
      have named : IsTagName "br" := by decide
      refine close_formed faithful ?_ formed.shape.root formed.withNextId.bound
      obtain ⟨⟨stack, -⟩, bound⟩ := formed
      generalize builder.verbatimRoot = mode at stack bound
      cases mode with
      | none =>
        cases stack with
        | plain all =>
          refine .plain fun element held => ?_
          rcases List.mem_cons.mp held with rfl | held
          · refine ⟨rfl, (formedElement_plain _ rfl).mpr ⟨named, ?_, trivial, trivial⟩⟩
            exact { stems with noLoop := fun _ held => by cases held }
          · exact all element held
      | some id =>
        have less := bound id rfl
        refine .inner _ ?_ ⟨new_isRaw _ _ _ _, named, trivial, rfl⟩ stack
        simp only [Head.new]
        omega
    · split
      · exact (formed.startTag faithful (by decide) [] false span).closeThrough faithful _ _
      · exact formed.report _

omit faithful in
theorem Formed.updateParent {builder : Builder} (formed : builder.Formed) (node : Node)
    (leaf : FormedNode node) (raw : builder.isVerbatim = true → RawNode node) :
    (builder.updateParent fun element => element.addChild node).Formed := by
  unfold Builder.updateParent
  split
  · exact formed
  · next parent outer given =>
    obtain ⟨⟨stack, root⟩, bound⟩ := formed
    rw [given] at stack
    refine ⟨⟨stack.withChildren (fun _ old => ?_) fun inside old => ?_, root⟩, bound⟩
    · rw [formedNodes_iff] at old ⊢
      exact forall_mem_concat old leaf
    · rw [rawNodes_iff] at old ⊢
      exact forall_mem_concat old (raw inside)

omit faithful in
theorem Formed.innerText {builder : Builder} (formed : builder.Formed) (parent : Element)
    (raw : String) (span : Span) (id : Nat) :
    (builder.innerText settings parent raw span id).Formed := by
  unfold Builder.innerText
  simp only
  generalize (if !builder.isPreformatted && settings.whitespace == .condense then
    String.ofList (condense false (textContent settings parent builder.isPreformatted raw).toList)
    else textContent settings parent builder.isPreformatted raw) = content
  split
  · exact formed
  · split
    · exact formed.report _
    · refine (formed.report _).updateParent (.text _) trivial fun verbatim => ?_
      simp only [Builder.report, isVerbatim] at verbatim
      simp [RawNode, isVerbatim, verbatim]

omit faithful in
theorem Formed.text {builder : Builder} (formed : builder.Formed) (source raw : String)
    (span : Span) : (builder.text settings source raw span).Formed := by
  have counted := formed.withNextId
  unfold Builder.text
  simp only
  split
  · unfold outerText
    split
    · exact counted.report _
    · split
      · exact counted
      · exact counted.report _
  · exact counted.innerText _ raw span _

omit faithful in
theorem Formed.comment {builder : Builder} (formed : builder.Formed) (content : String)
    (span : Span) : (builder.comment settings content span).Formed := by
  unfold Builder.comment
  split
  · exact formed.withNextId.updateParent _ trivial fun _ => trivial
  · exact formed

theorem Formed.token {builder : Builder} (formed : builder.Formed) (source : String)
    {token : Token} (named : token.IsNamed) : (builder.token settings source token).Formed := by
  cases token with
  | startTag name attributes selfClosing span =>
    exact formed.startTag faithful named attributes selfClosing span
  | endTag name span => exact formed.endTag faithful name span
  | text content span => exact formed.text source content span
  | comment content span => exact formed.comment content span
  | malformed content span => exact (formed.report _).text source content span

theorem Formed.tokens {builder : Builder} (formed : builder.Formed) (source : String)
    {tokens : List Token} (named : ∀ token ∈ tokens, token.IsNamed) :
    (tokens.foldl (Builder.token settings source) builder).Formed := by
  induction tokens generalizing builder with
  | nil => exact formed
  | cons first others ih =>
    exact ih (formed.token faithful source (named first List.mem_cons_self)) fun other held =>
      named other (List.mem_cons_of_mem _ held)

end Builder

/-- A document that has been read is formed as it should be. -/
theorem parse_formed {settings : Settings}
    (faithful : ∀ extension ∈ settings.extensions, extension.IsFaithful) (source : String) :
    ∀ root ∈ (Document.parse settings source).1.root, FormedElement root := by
  have read := Builder.Formed.initial.tokens faithful source (scan_isNamed source)
  exact (read.closeAllUnmatched faithful _).shape.root

end Templating.Template
