import Mathlib.Data.Finset.BooleanAlgebra
import Mathlib.Data.Fintype.Card
import Mathlib.Logic.Relation
import Templating.Proofs.Template.AllHeads
import Templating.Rendering.Generator
/-!
# Writing by calls

The layers of an element can be written by functions that call one another: each layer enters the
element again, with a mark on what has been written, and goes to the parts of the element when
nothing is left.  Here the calls are followed one by one, only as deep as is allowed.  Every call
has a rank, which the calls inside it stay below, so that a depth above the rank always suffices.
-/
set_option autoImplicit false

namespace Templating.Rendering

open Templating.Text Templating.Template

instance : Fintype Layer where
  elems := {.hoist, .once, .loop, .choose}
  complete layer := by cases layer <;> decide

/-! ## Calls -/

inductive Routine where
  /-- The next layer of an element, or its own source behind all layers. -/
  | element
  | layer (layer : Layer)
  /-- What stands for an element where its condition holds. -/
  | block
  | children
  | outlet
deriving DecidableEq

/-- A function, its element, and the layers of the element that are marked as written.  Children
and outlets do not look at the marks. -/
structure Call where
  routine : Routine
  element : Element
  visited : Finset Layer

/-- What a function gives; there may be no children. -/
abbrev Routine.Answer : Routine → Type
  | .children => Option Code
  | _ => Code

abbrev Call.Answer (call : Call) : Type := call.routine.Answer

/-- Writing that is given up where calls go too deep. -/
abbrev Attempt := StateT Draft Option

def certainly {α : Type} (write : Gen α) : Attempt α := fun draft => some (write.run draft)

abbrev Callee := (call : Call) → List (Option String) → Attempt call.Answer

/-- The element has such a layer, if there were no other. -/
def Layer.isAsked (flags : Flags) (head : Head) : Layer → Bool
  | .hoist => flags.isRoot
  | .once => head.isOnce
  | .loop => head.loop.isSome
  | .choose => head.condition.isSome

/-- The layers that an element asks for and that have not been written, in the order in which they
are entered. -/
def remaining (flags : Flags) (head : Head) (visited : Finset Layer) : List Layer :=
  [.hoist, .once, .loop, .choose].filter fun layer => layer.isAsked flags head && layer ∉ visited

def nextLayer? (flags : Flags) (head : Head) (visited : Finset Layer) : Option Layer :=
  (remaining flags head visited).head?

/-- The branches up to the first without a condition. -/
def reachedBranches : List Branch → List Branch
  | [] => []
  | ⟨some condition, block⟩ :: rest => ⟨some condition, block⟩ :: reachedBranches rest
  | ⟨none, block⟩ :: _ => [⟨none, block⟩]

/-- The calls that a function makes, and when it makes them. -/
inductive Calls (context : Context) : Call → Call → Prop where
  | layer {element : Element} {visited : Finset Layer} {layer : Layer}
      (awaited : nextLayer? (context.annotations.get element.head.id) element.head visited =
        some layer) :
    Calls context ⟨.element, element, visited⟩ ⟨.layer layer, element, visited⟩
  | children {element : Element} {visited : Finset Layer}
      (written : nextLayer? (context.annotations.get element.head.id) element.head visited = none)
      (plain : element.head.tag ≠ "slot") :
    Calls context ⟨.element, element, visited⟩ ⟨.children, element, visited⟩
  | outlet {element : Element} {visited : Finset Layer}
      (written : nextLayer? (context.annotations.get element.head.id) element.head visited = none)
      (isOutlet : element.head.tag = "slot") :
    Calls context ⟨.element, element, visited⟩ ⟨.outlet, element, visited⟩
  | hoisted (element : Element) (visited : Finset Layer) :
    Calls context ⟨.layer .hoist, element, visited⟩ ⟨.element, element, insert .hoist visited⟩
  /-- The condition is around a subtree that is rendered once. -/
  | chosenOnce {element : Element} {visited : Finset Layer}
      (conditional : element.head.condition.isSome = true)
      (new : .choose ∉ insert Layer.once visited) :
    Calls context ⟨.layer .once, element, visited⟩ ⟨.layer .choose, element, insert .once visited⟩
  | numbered {element : Element} {visited : Finset Layer}
      (inLoop : (context.annotations.get element.head.id).isInLoop = true) :
    Calls context ⟨.layer .once, element, visited⟩ ⟨.element, element, insert .once visited⟩
  /-- Outside loops a subtree is rendered once as a fragment, marked as one or not. -/
  | hoistedOnce {element : Element} {visited : Finset Layer}
      (outside : (context.annotations.get element.head.id).isInLoop = false) :
    Calls context ⟨.layer .once, element, visited⟩ ⟨.layer .hoist, element, insert .once visited⟩
  | repeated {element : Element} {visited : Finset Layer}
      (header : element.head.loop.isSome = true) :
    Calls context ⟨.layer .loop, element, visited⟩ ⟨.element, element, insert .loop visited⟩
  | unrepeated {element : Element} {visited : Finset Layer}
      (headless : element.head.loop = none) :
    Calls context ⟨.layer .loop, element, visited⟩ ⟨.element, element, visited⟩
  | chosen (element : Element) (visited : Finset Layer) :
    Calls context ⟨.layer .choose, element, visited⟩ ⟨.block, element, insert .choose visited⟩
  | branch {element : Element} {visited : Finset Layer} {branch : Branch}
      (reached : branch ∈ reachedBranches element.branches) :
    Calls context ⟨.layer .choose, element, visited⟩ ⟨.block, branch.block, ∅⟩
  /-- A block that is rendered once is not asked for its next layer. -/
  | blockOnce {element : Element} {visited : Finset Layer} (once : element.head.isOnce = true) :
    Calls context ⟨.block, element, visited⟩ ⟨.layer .once, element, visited⟩
  | block {element : Element} {visited : Finset Layer} (plain : element.head.isOnce = false) :
    Calls context ⟨.block, element, visited⟩ ⟨.element, element, visited⟩
  | child {element child : Element} {visited : Finset Layer}
      (held : .element child ∈ element.children) :
    Calls context ⟨.children, element, visited⟩ ⟨.element, child, ∅⟩
  | fallback (element : Element) (visited : Finset Layer) :
    Calls context ⟨.outlet, element, visited⟩ ⟨.children, element, visited⟩

/-! ## What a call writes -/

def attemptCore (context : Context) (head : Head) (children : Attempt (Option Code))
    (outlet : Attempt Code) (loops : List (Option String)) : Attempt Code := do
  if head.tag == "template" && head.slotTarget.isNone && !head.isVerbatim then
    let inner ← children
    return inner.getD (.ofSource "undefined")
  else if head.tag == "slot" then outlet
  else
    let data ← certainly (writeData context head loops)
    let inner ← children
    match head.component with
    | some component =>
      return .source ("_c(" ++ component ++ "," ++ data) :: furtherArgument inner ++ [.source ")"]
    | none =>
      let given := if data == "\x7b\x7d" then "" else "," ++ data
      return .source ("_c('" ++ head.tag ++ "'" ++ given) :: furtherArgument inner ++ [.source ")"]

def attemptBranches (callee : Callee) (loops : List (Option String)) : List Branch → Attempt Code
  | [] => return .ofSource "_e()"
  | ⟨some condition, block⟩ :: rest => do
    let code : Code ← callee ⟨.block, block, ∅⟩ loops
    let others ← attemptBranches callee loops rest
    return .source ("(" ++ condition ++ ")?") :: code ++ .source ":" :: others
  | ⟨none, block⟩ :: _ => callee ⟨.block, block, ∅⟩ loops

def attemptNode (context : Context) (callee : Callee) (loops : List (Option String)) :
    Node → Attempt Code
  | .element element => callee ⟨.element, element, ∅⟩ loops
  | .text run => certainly (writeNode context (.text run) loops)
  | .comment comment => certainly (writeNode context (.comment comment) loops)

def childrenCode (children : List Node) (codes : List Code) : Option Code :=
  if codes.isEmpty then none
  else if isLoneLoop children then some codes.flatten
  else some (.source "[" :: Code.commaSeparated codes ++ [.source "]"])

/-- What a function does, with the calls that it makes left to `callee`. -/
def Call.body (context : Context) (callee : Callee) :
    (call : Call) → List (Option String) → Attempt call.Answer
  | ⟨.element, element, visited⟩, loops =>
    match nextLayer? (context.annotations.get element.head.id) element.head visited with
    | some layer => callee ⟨.layer layer, element, visited⟩ loops
    | none =>
      attemptCore context element.head (callee ⟨.children, element, visited⟩ loops)
        (callee ⟨.outlet, element, visited⟩ loops) loops
  | ⟨.layer .hoist, element, visited⟩, loops => do
    let code : Code ← callee ⟨.element, element, insert .hoist visited⟩ loops
    let index ← certainly (Gen.keepFragment code.wrapped)
    return [.fragment index (context.annotations.get element.head.id).isInLoop]
  | ⟨.layer .once, element, visited⟩, loops =>
    let within := insert .once visited
    if element.head.condition.isSome = true ∧ .choose ∉ within then
      callee ⟨.layer .choose, element, within⟩ loops
    else if (context.annotations.get element.head.id).isInLoop then
      match loops.head?.join with
      | some key => do
        let code : Code ← callee ⟨.element, element, within⟩ loops
        let id ← certainly Gen.nextOnce
        return .source "_o(" :: code ++ [.source ",", .onceId id, .source ("," ++ key ++ ")")]
      | none => do
        certainly (Gen.report [.errorAt element.head.span .unkeyedOnce])
        callee ⟨.element, element, within⟩ loops
    else callee ⟨.layer .hoist, element, within⟩ loops
  | ⟨.layer .loop, element, visited⟩, loops =>
    match element.head.loop with
    | some header => do
      certainly (Gen.report (loopDiagnostics context.settings element.head header))
      let body : Code ← callee ⟨.element, element, insert .loop visited⟩ (element.head.key :: loops)
      return .source ("_l((" ++ header.source ++ "),function(" ++ join "," header.targets ++
        ")\x7breturn ") :: body ++ [.source "\x7d)"]
    | none => callee ⟨.element, element, visited⟩ loops
  | ⟨.layer .choose, element, visited⟩, loops => do
    let block : Code ← callee ⟨.block, element, insert .choose visited⟩ loops
    let others ← attemptBranches callee loops element.branches
    return .source ("(" ++ element.head.condition.getD "true" ++ ")?") :: block ++
      .source ":" :: others
  | ⟨.block, element, visited⟩, loops =>
    if element.head.isOnce then callee ⟨.layer .once, element, visited⟩ loops
    else callee ⟨.element, element, visited⟩ loops
  | ⟨.children, element, _⟩, loops => do
    let codes ← element.children.mapM (attemptNode context callee loops)
    return childrenCode element.children codes
  | ⟨.outlet, element, visited⟩, loops => do
    let inner : Option Code ← callee ⟨.children, element, visited⟩ loops
    return outletCode element.head inner

def Call.run (context : Context) : Nat → Callee
  | 0 => fun _ _ _ => none
  | depth + 1 => fun call => call.body context (Call.run context depth)

/-! ## Steps of a call -/

/-- A relation between attempts that goes through steps in a row. -/
structure IsStepwise (related : {α : Type} → Attempt α → Attempt α → Prop) : Prop where
  certain {α : Type} (write : Gen α) : related (certainly write) (certainly write)
  bind {α β : Type} {first other : Attempt α} {next following : α → Attempt β}
    (before : related first other) (behind : ∀ result, related (next result) (following result)) :
    related (first >>= next) (other >>= following)

section Stepwise

variable {related : {α : Type} → Attempt α → Attempt α → Prop} (stepwise : IsStepwise related)
  {context : Context}

include stepwise

theorem IsStepwise.pure {α : Type} (result : α) :
    related (Pure.pure result : Attempt α) (Pure.pure result) := stepwise.certain (Pure.pure result)

theorem attemptCore_related {head : Head} {loops : List (Option String)}
    {children others : Attempt (Option Code)} {outlet otherOutlet : Attempt Code}
    (inner : head.tag ≠ "slot" → related children others)
    (fallback : head.tag = "slot" → related outlet otherOutlet) :
    related (attemptCore context head children outlet loops)
      (attemptCore context head others otherOutlet loops) := by
  unfold attemptCore
  by_cases isOutlet : head.tag = "slot"
  · have tags : (head.tag == "template") = false ∧ (head.tag == "slot") = true := by
      rw [isOutlet]
      decide
    simpa [tags] using fallback isOutlet
  · have inside := inner isOutlet
    split
    · exact stepwise.bind inside fun _ => stepwise.pure _
    split
    · next isTag => exact absurd (beq_iff_eq.mp isTag) isOutlet
    · refine stepwise.bind (stepwise.certain _) fun data => stepwise.bind inside fun codes => ?_
      split <;> exact stepwise.pure _

theorem attemptBranches_related {callee other : Callee} {branches : List Branch}
    {loops : List (Option String)}
    (blocks : ∀ branch ∈ reachedBranches branches,
      related (callee ⟨.block, branch.block, ∅⟩ loops) (other ⟨.block, branch.block, ∅⟩ loops)) :
    related (attemptBranches callee loops branches) (attemptBranches other loops branches) := by
  induction branches with
  | nil => exact stepwise.pure _
  | cons branch rest ih =>
    obtain ⟨condition, block⟩ := branch
    cases condition with
    | none => exact blocks ⟨none, block⟩ List.mem_cons_self
    | some condition =>
      obtain ⟨first, others⟩ := List.forall_mem_cons.mp blocks
      exact stepwise.bind first fun code => stepwise.bind (ih others) fun codes => stepwise.pure _

theorem mapM_related {nodes : List Node} {write following : Node → Attempt Code}
    (each : ∀ node ∈ nodes, related (write node) (following node)) :
    related (nodes.mapM write) (nodes.mapM following) := by
  induction nodes with
  | nil => exact stepwise.pure _
  | cons node rest ih =>
    obtain ⟨first, others⟩ := List.forall_mem_cons.mp each
    rw [List.mapM_cons, List.mapM_cons]
    exact stepwise.bind first fun code => stepwise.bind (ih others) fun codes => stepwise.pure _

/-- Only its calls make a difference to what a function does. -/
theorem Call.body_related (call : Call) (callee other : Callee)
    (each : ∀ next, Calls context call next →
      ∀ loops, related (callee next loops) (other next loops))
    (loops : List (Option String)) :
    related (call.body context callee loops) (call.body context other loops) := by
  obtain ⟨routine, element, visited⟩ := call
  cases routine with
  | element =>
    simp only [Call.body]
    cases awaited : nextLayer? (context.annotations.get element.head.id) element.head visited with
    | some layer => exact each _ (.layer awaited) loops
    | none =>
      exact attemptCore_related stepwise (fun plain => each _ (.children awaited plain) loops)
        fun isOutlet => each _ (.outlet awaited isOutlet) loops
  | layer layer =>
    cases layer with
    | hoist =>
      exact stepwise.bind (each _ (.hoisted element visited) loops) fun code =>
        stepwise.bind (stepwise.certain _) fun index => stepwise.pure _
    | once =>
      simp only [Call.body]
      split
      · next asked => exact each _ (.chosenOnce asked.1 asked.2) loops
      split
      · next inLoop =>
        have inner := each _ (.numbered inLoop) loops
        split
        · exact stepwise.bind inner fun code =>
            stepwise.bind (stepwise.certain _) fun id => stepwise.pure _
        · exact stepwise.bind (stepwise.certain _) fun _ => inner
      · next outside => exact each _ (.hoistedOnce (by simpa using outside)) loops
    | loop =>
      simp only [Call.body]
      split
      · next header given =>
        have inner := each _ (.repeated (by rw [given]; rfl)) (element.head.key :: loops)
        exact stepwise.bind (stepwise.certain _) fun _ =>
          stepwise.bind inner fun body => stepwise.pure _
      · next headless => exact each _ (.unrepeated headless) loops
    | choose =>
      have branches := attemptBranches_related stepwise fun branch reached =>
        each _ (.branch reached) loops
      exact stepwise.bind (each _ (.chosen element visited) loops) fun block =>
        stepwise.bind branches fun others => stepwise.pure _
  | block =>
    simp only [Call.body]
    split
    · next once => exact each _ (.blockOnce once) loops
    · next plain => exact each _ (.block (by simpa using plain)) loops
  | children =>
    refine stepwise.bind (mapM_related stepwise fun node held => ?_) fun codes => stepwise.pure _
    cases node with
    | element child => exact each _ (.child held) loops
    | text run => exact stepwise.certain _
    | comment comment => exact stepwise.certain _
  | outlet =>
    exact stepwise.bind (each _ (.fallback element visited) loops) fun inner => stepwise.pure _

end Stepwise

/-! ## Ranks -/

theorem reachedBranches_subset (branches : List Branch) :
    ∀ branch ∈ reachedBranches branches, branch ∈ branches := by
  induction branches with
  | nil => exact fun branch held => held
  | cons first rest ih =>
    obtain ⟨condition, block⟩ := first
    intro branch held
    cases condition with
    | none => exact List.mem_cons.mpr (.inl (List.mem_singleton.mp held))
    | some condition =>
      rcases List.mem_cons.mp held with rfl | later
      · exact List.mem_cons_self
      · exact List.mem_cons_of_mem _ (ih branch later)

/-- The layers that are marked as soon as the function has begun.  A loop without a header leaves no
mark. -/
def Call.begun : Call → Finset Layer
  | ⟨.layer .loop, element, visited⟩ =>
    if element.head.loop.isSome then insert .loop visited else visited
  | ⟨.layer layer, _, visited⟩ => insert layer visited
  | ⟨_, _, visited⟩ => visited

/-- The order in which functions call one another without a new mark. -/
def Routine.phase : Routine → Nat
  | .children => 0
  | .outlet => 1
  | .element => 2
  | .layer .hoist => 3
  | .layer .loop => 3
  | .layer .once => 4
  | .block => 5
  | .layer .choose => 6

/-- Smaller elements come first, then more marks, then the order of functions. -/
def Call.rank (call : Call) : Nat :=
  40 * call.element.count + 8 * call.begunᶜ.card + call.routine.phase

theorem Routine.phase_le (routine : Routine) : routine.phase ≤ 6 := by
  rcases routine with _ | (_ | _ | _ | _) | _ | _ | _ <;> decide

theorem rank_lt (call : Call) : call.rank < 40 * (call.element.count + 1) := by
  have phase := call.routine.phase_le
  have marks : call.begunᶜ.card ≤ 4 := Finset.card_le_univ call.begunᶜ
  unfold Call.rank
  omega

section Rank

variable {call next : Call}

theorem rank_lt_of_count (smaller : next.element.count < call.element.count) :
    next.rank < call.rank := by
  have bound := rank_lt next
  unfold Call.rank at bound ⊢
  omega

theorem rank_lt_of_mark (same : next.element = call.element) (marked : call.begun ⊂ next.begun) :
    next.rank < call.rank := by
  have phase := next.routine.phase_le
  have fewer : next.begunᶜ.card < call.begunᶜ.card :=
    Finset.card_lt_card (Finset.compl_ssubset_compl.mpr marked)
  unfold Call.rank
  rw [same]
  omega

theorem rank_lt_of_phase (same : next.element = call.element) (kept : call.begun ⊆ next.begun)
    (earlier : next.routine.phase < call.routine.phase) : next.rank < call.rank := by
  have noMore : next.begunᶜ.card ≤ call.begunᶜ.card :=
    Finset.card_le_card (Finset.compl_subset_compl.mpr kept)
  unfold Call.rank
  rw [same]
  omega

end Rank

theorem nextLayer_eq_some {flags : Flags} {head : Head} {visited : Finset Layer} {layer : Layer}
    (awaited : nextLayer? flags head visited = some layer) :
    layer.isAsked flags head = true ∧ layer ∉ visited := by
  have held := List.mem_filter.mp (List.mem_of_head? awaited)
  simpa using held.2

theorem begun_layer {flags : Flags} {element : Element} {layer : Layer} (visited : Finset Layer)
    (asked : layer.isAsked flags element.head = true) :
    Call.begun ⟨.layer layer, element, visited⟩ = insert layer visited := by
  cases layer with
  | loop => exact if_pos asked
  | _ => rfl

theorem Calls.stays_or_descends {context : Context} {call next : Call}
    (calls : Calls context call next) :
    (next.element = call.element ∧ call.visited ⊆ next.visited) ∨
      next.element.count < call.element.count := by
  cases calls with
  | layer | children | outlet | unrepeated | blockOnce | block | fallback =>
    exact .inl ⟨rfl, subset_rfl⟩
  | hoisted | chosenOnce | numbered | hoistedOnce | repeated | chosen =>
    exact .inl ⟨rfl, Finset.subset_insert _ _⟩
  | branch reached => exact .inr (Element.count_branch (reachedBranches_subset _ _ reached))
  | child held => exact .inr (Element.count_child held)

/-- Each function calls others with a new mark, or earlier ones, or goes to a smaller element. -/
theorem Calls.rank_lt {context : Context} {call next : Call} (calls : Calls context call next) :
    next.rank < call.rank := by
  cases calls with
  | @layer element visited layer awaited =>
    obtain ⟨asked, new⟩ := nextLayer_eq_some awaited
    refine rank_lt_of_mark rfl ?_
    rw [begun_layer visited asked]
    exact Finset.ssubset_insert new
  | chosenOnce conditional new => exact rank_lt_of_mark rfl (Finset.ssubset_insert new)
  -- the mark may have been set before, so that only the phase is sure to go down
  | hoistedOnce | blockOnce =>
    exact rank_lt_of_phase rfl (Finset.subset_insert _ _) (by simp [Routine.phase])
  | @repeated element visited header =>
    refine rank_lt_of_phase rfl ?_ (by simp [Routine.phase])
    simp [Call.begun, header]
  | @unrepeated element visited headless =>
    refine rank_lt_of_phase rfl ?_ (by simp [Routine.phase])
    simp [Call.begun, headless]
  | children | outlet | hoisted | numbered | chosen | block | fallback =>
    exact rank_lt_of_phase rfl subset_rfl (by simp [Routine.phase])
  | branch reached =>
    exact rank_lt_of_count (Element.count_branch (reachedBranches_subset _ _ reached))
  | child held => exact rank_lt_of_count (Element.count_child held)

/-! ## Chains of calls -/

section Chains

variable {context : Context} {call next : Call}

open Relation

theorem Calls.rank_lt_chain (chain : TransGen (Calls context) call next) :
    next.rank < call.rank := by
  induction chain with
  | single calls => exact calls.rank_lt
  | tail _ calls ih => exact calls.rank_lt.trans ih

theorem Calls.stays_or_descends_chain (chain : TransGen (Calls context) call next) :
    (next.element = call.element ∧ call.visited ⊆ next.visited) ∨
      next.element.count < call.element.count := by
  induction chain with
  | single calls => exact calls.stays_or_descends
  | @tail middle next _ calls ih =>
    rcases calls.stays_or_descends with ⟨same, kept⟩ | smaller
    · rcases ih with ⟨before, keptBefore⟩ | below
      · exact .inl ⟨same.trans before, keptBefore.trans kept⟩
      · exact .inr (by rwa [same])
    · rcases ih with ⟨before, -⟩ | below
      · exact .inr (by rwa [before] at smaller)
      · exact .inr (smaller.trans below)

theorem Calls.wellFounded (context : Context) :
    WellFounded fun next call => Calls context call next :=
  Subrelation.wf (fun calls => calls.rank_lt) (measure Call.rank).wf

/-- A function that is called again on its element is called with a new mark. -/
theorem Calls.marks_cycle (chain : TransGen (Calls context) call next)
    (same : next.routine = call.routine) (stays : next.element = call.element) :
    call.visited ⊂ next.visited := by
  rcases stays_or_descends_chain chain with ⟨-, kept⟩ | smaller
  · -- without a new mark the call would be inside itself, with a rank below its own
    refine Finset.ssubset_iff_subset_ne.mpr ⟨kept, fun unmarked => ?_⟩
    have again : next = call := by
      obtain ⟨routine, element, visited⟩ := call
      obtain ⟨routine', element', visited'⟩ := next
      obtain rfl : routine' = routine := same
      obtain rfl : element' = element := stays
      obtain rfl : visited = visited' := unmarked
      rfl
    have lower := rank_lt_chain chain
    rw [again] at lower
    exact absurd lower (lt_irrefl _)
  · rw [stays] at smaller
    exact absurd smaller (lt_irrefl _)

end Chains

/-! ## Answers -/

theorem isStepwise_eq : IsStepwise fun {_} first other => first = other where
  certain _ := rfl
  bind := by
    rintro α β first _ next following rfl behind
    exact congrArg _ (funext behind)

def IsCertain {α : Type} (attempt : Attempt α) : Prop := ∀ draft, (attempt draft).isSome = true

theorem isStepwise_isCertain : IsStepwise fun {_} first _ => IsCertain first where
  certain _ _ := rfl
  bind := by
    intro α β first _ next _ before behind draft
    obtain ⟨⟨result, after⟩, given⟩ := Option.isSome_iff_exists.mp (before draft)
    show ((first draft).bind fun given => next given.1 given.2).isSome = true
    rw [given]
    exact behind result after

section Answers

variable {context : Context}

theorem Call.body_congr {call : Call} {callee other : Callee}
    (agree : ∀ next, Calls context call next → callee next = other next) :
    call.body context callee = call.body context other :=
  funext fun loops => call.body_related isStepwise_eq callee other
    (fun next calls loops => congrFun (agree next calls) loops) loops

theorem run_eq_of_rank_lt {call : Call} {depth other : Nat} (deep : call.rank < depth)
    (deepOther : call.rank < other) :
    Call.run context depth call = Call.run context other call := by
  induction depth generalizing call other with
  | zero => exact absurd deep (Nat.not_lt_zero _)
  | succ depth ih =>
    cases other with
    | zero => exact absurd deepOther (Nat.not_lt_zero _)
    | succ other =>
      refine Call.body_congr fun next calls => ?_
      have lower := calls.rank_lt
      exact ih (by omega) (by omega)

/-- A call is not given up, where the depth is above its rank. -/
theorem isCertain_run {call : Call} {depth : Nat} (deep : call.rank < depth)
    (loops : List (Option String)) : IsCertain (Call.run context depth call loops) := by
  induction depth generalizing call loops with
  | zero => exact absurd deep (Nat.not_lt_zero _)
  | succ depth ih =>
    refine call.body_related isStepwise_isCertain (Call.run context depth) (Call.run context depth)
      (fun next calls loops => ?_) loops
    have lower := calls.rank_lt
    exact ih (by omega) loops

theorem IsCertain.exists_eq {α : Type} {attempt : Attempt α} (certain : IsCertain attempt) :
    ∃ write : Gen α, attempt = certainly write :=
  ⟨fun draft => (attempt draft).get (certain draft), funext fun _ => (Option.some_get _).symm⟩

def Call.outcome (context : Context) : Callee := fun call => Call.run context (call.rank + 1) call

theorem run_eq_outcome {call : Call} {depth : Nat} (deep : call.rank < depth) :
    Call.run context depth call = call.outcome context :=
  run_eq_of_rank_lt deep (Nat.lt_succ_self _)

theorem outcome_eq (call : Call) :
    call.outcome context = call.body context (Call.outcome context) :=
  Call.body_congr fun _ calls => run_eq_outcome calls.rank_lt

end Answers

end Templating.Rendering
