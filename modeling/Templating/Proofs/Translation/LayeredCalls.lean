import Templating.Proofs.Translation.Calls
import Templating.Proofs.Translation.LoopMarks
/-!
# Calls and layers

Following the calls of an element comes to the same source as writing its layers from the inside
out.  The two part only where a branch is marked as a root and rendered once as well: its block is
entered behind the layer of the root.
-/
set_option autoImplicit false

namespace Templating.Rendering

open Templating.Text Templating.Template

/-- The source of an element inside some of its layers. -/
def layered (context : Context) (element : Element) (all : List Layer) : Writer :=
  all.foldr
    (fun layer inner =>
      layer.write context element.head (branchWriters context element.branches) inner)
    (writeCore context element.head element.children (nodeWriters context element.children))

theorem writeElement_eq_layered (context : Context) (element : Element) :
    writeElement context element =
      layered context element (layers (context.annotations.get element.head.id) element.head) := by
  obtain ⟨head, children, branches⟩ := element
  rw [writeElement]
  rfl

theorem layered_cons (context : Context) (element : Element) (layer : Layer) (all : List Layer) :
    layered context element (layer :: all) =
      layer.write context element.head (branchWriters context element.branches)
        (layered context element all) := rfl

def Yields (context : Context) (call : Call) (write : List (Option String) → Gen call.Answer) :
    Prop :=
  ∀ loops, call.outcome context loops = certainly (write loops)

/-- The parts of an element are written as they are by calls. -/
structure PartsWritten (context : Context) (element : Element) : Prop where
  children (visited : Finset Layer) : Yields context ⟨.children, element, visited⟩
    (writeChildren element.children (nodeWriters context element.children))
  branches (loops : List (Option String)) :
    attemptBranches (Call.outcome context) loops element.branches =
      certainly (writeBranches loops (branchWriters context element.branches))

section Layers

variable {context : Context} {element : Element} {visited : Finset Layer} {all : List Layer}
  {write : Writer}

theorem Yields.next {layer : Layer}
    (asked : nextLayer? (context.annotations.get element.head.id) element.head visited = some layer)
    (inner : Yields context ⟨.layer layer, element, visited⟩ write) :
    Yields context ⟨.element, element, visited⟩ write := by
  intro loops
  rw [outcome_eq]
  simp only [Call.body]
  rw [asked]
  exact inner loops

theorem Yields.core (parts : PartsWritten context element)
    (written : nextLayer? (context.annotations.get element.head.id) element.head visited = none) :
    Yields context ⟨.element, element, visited⟩ (layered context element []) := by
  intro loops
  have outlet : Call.outcome context ⟨.outlet, element, visited⟩ loops =
      certainly (do
        let inner ← writeChildren element.children (nodeWriters context element.children) loops
        return outletCode element.head inner) := by
    rw [outcome_eq]
    simp only [Call.body]
    rw [parts.children visited loops]
    rfl
  rw [outcome_eq]
  simp only [Call.body]
  rw [written]
  simp only [layered, List.foldr_nil]
  rw [outlet, parts.children visited loops]
  unfold attemptCore writeCore
  split
  · rfl
  split
  · rfl
  · cases element.head.component <;> rfl

theorem Yields.hoist
    (inner : Yields context ⟨.element, element, insert .hoist visited⟩
      (layered context element all)) :
    Yields context ⟨.layer .hoist, element, visited⟩
      (layered context element (.hoist :: all)) := by
  intro loops
  rw [outcome_eq]
  simp only [Call.body]
  rw [inner loops]
  rfl

theorem Yields.loop (header : element.head.loop.isSome = true)
    (inner : Yields context ⟨.element, element, insert .loop visited⟩
      (layered context element all)) :
    Yields context ⟨.layer .loop, element, visited⟩
      (layered context element (.loop :: all)) := by
  intro loops
  obtain ⟨given, same⟩ := Option.isSome_iff_exists.mp header
  rw [outcome_eq]
  simp only [Call.body, layered_cons, Layer.write]
  rw [same]
  dsimp only
  rw [inner]
  rfl

theorem Yields.choose (parts : PartsWritten context element)
    (block : Yields context ⟨.block, element, insert .choose visited⟩
      (layered context element all)) :
    Yields context ⟨.layer .choose, element, visited⟩
      (layered context element (.choose :: all)) := by
  intro loops
  rw [outcome_eq]
  simp only [Call.body]
  rw [block loops, parts.branches loops]
  rfl

theorem Yields.chosenOnce (conditional : element.head.condition.isSome = true)
    (new : .choose ∉ insert Layer.once visited)
    (inner : Yields context ⟨.layer .choose, element, insert .once visited⟩ write) :
    Yields context ⟨.layer .once, element, visited⟩ write := by
  intro loops
  rw [outcome_eq]
  simp only [Call.body]
  rw [if_pos ⟨conditional, new⟩]
  exact inner loops

theorem Yields.once
    (settled : ¬ (element.head.condition.isSome = true ∧ .choose ∉ insert Layer.once visited))
    (inner : Yields context ⟨.element, element, insert .once visited⟩ (layered context element all))
    (hoisted : Yields context ⟨.element, element, insert .hoist (insert .once visited)⟩
      (layered context element all)) :
    Yields context ⟨.layer .once, element, visited⟩ (layered context element
      ((if (context.annotations.get element.head.id).isInLoop then .once else .hoist) :: all)) := by
  intro loops
  rw [outcome_eq]
  simp only [Call.body]
  rw [if_neg settled]
  split
  · simp only [layered_cons, Layer.write]
    rw [inner loops]
    cases loops.head?.join <;> rfl
  · exact Yields.hoist hoisted loops

theorem Yields.block
    (inner : element.head.isOnce = false → Yields context ⟨.element, element, visited⟩ write)
    (once : element.head.isOnce = true → Yields context ⟨.layer .once, element, visited⟩ write) :
    Yields context ⟨.block, element, visited⟩ write := by
  intro loops
  rw [outcome_eq]
  simp only [Call.body]
  split
  · next isOnce => exact once isOnce loops
  · next plain => exact inner (by simpa using plain) loops

end Layers

/-! ## The layers that remain -/

theorem remaining_insert (flags : Flags) (head : Head) (visited : Finset Layer) (layer : Layer) :
    remaining flags head (insert layer visited) =
      (remaining flags head visited).filter (· ≠ layer) := by
  simp only [remaining, List.filter_filter]
  refine List.filter_congr fun other _ => ?_
  by_cases same : other = layer <;> simp [same]

theorem remaining_nodup (flags : Flags) (head : Head) (visited : Finset Layer) :
    (remaining flags head visited).Nodup :=
  List.Nodup.filter _ (by decide)

theorem remaining_insert_next {flags : Flags} {head : Head} {visited : Finset Layer} {layer : Layer}
    {rest : List Layer} (left : remaining flags head visited = layer :: rest) :
    remaining flags head (insert layer visited) = rest := by
  have nodup := remaining_nodup flags head visited
  rw [left, List.nodup_cons] at nodup
  rw [remaining_insert, left, List.filter_cons_of_neg (by simp), List.filter_eq_self]
  intro other held
  simpa using fun same : other = layer => nodup.1 (same ▸ held)

section Element

variable {context : Context} {element : Element} {visited : Finset Layer}

/-- Where no subtree that is rendered once is left to come to, the layers are entered in order. -/
theorem yields_remaining (parts : PartsWritten context element) {all : List Layer}
    (left : remaining (context.annotations.get element.head.id) element.head visited = all)
    (plain : element.head.isOnce = true → .once ∉ all ∧ .choose ∉ all) :
    Yields context ⟨.element, element, visited⟩ (layered context element all) := by
  induction all generalizing visited with
  | nil => exact .core parts (by rw [nextLayer?, left, List.head?_nil])
  | cons layer rest ih =>
    have asked : nextLayer? (context.annotations.get element.head.id) element.head visited =
        some layer := by
      rw [nextLayer?, left, List.head?_cons]
    have inner := ih (remaining_insert_next left) fun isOnce =>
      ⟨fun held => (plain isOnce).1 (List.mem_cons_of_mem _ held),
        fun held => (plain isOnce).2 (List.mem_cons_of_mem _ held)⟩
    refine .next asked ?_
    cases layer with
    | hoist => exact .hoist inner
    | once =>
      have isOnce : element.head.isOnce = true := (nextLayer_eq_some asked).1
      exact absurd List.mem_cons_self (plain isOnce).1
    | loop => exact .loop (nextLayer_eq_some asked).1 inner
    | choose =>
      refine .choose parts (.block (fun _ => inner) fun isOnce => ?_)
      exact absurd List.mem_cons_self (plain isOnce).2

def copies (head : Head) : List Layer := if head.loop.isSome then [.loop] else []

theorem remaining_eq_copies {flags : Flags} {head : Head}
    (hoisted : flags.isRoot = true → .hoist ∈ visited) (once : .once ∈ visited)
    (chosen : head.condition.isSome = true → .choose ∈ visited) (new : .loop ∉ visited) :
    remaining flags head visited = copies head := by
  have noHoist : (flags.isRoot && !decide (.hoist ∈ visited)) = false := by simpa using hoisted
  have noChoice : (head.condition.isSome && !decide (.choose ∈ visited)) = false := by
    simpa using chosen
  simp only [remaining, List.filter_cons, List.filter_nil, Layer.isAsked, decide_not, noHoist, once,
    new, noChoice, copies]
  cases head.loop.isSome <;> simp

/-- Behind its condition, a subtree that is rendered once has its own layer and its loop. -/
theorem yields_once_chosen (parts : PartsWritten context element)
    (hoisted : (context.annotations.get element.head.id).isRoot = true → .hoist ∈ visited)
    (chosen : element.head.condition.isSome = true → .choose ∈ visited) (new : .loop ∉ visited) :
    Yields context ⟨.layer .once, element, visited⟩ (layered context element
      ((if (context.annotations.get element.head.id).isInLoop then .once else .hoist) ::
        copies element.head)) := by
  have plain : .once ∉ copies element.head ∧ .choose ∉ copies element.head := by
    unfold copies
    split <;> simp
  have kept (layer : Layer) {other : Layer} (held : other ∈ visited) :
      other ∈ insert layer visited := Finset.mem_insert_of_mem held
  have left : remaining (context.annotations.get element.head.id) element.head
      (insert .once visited) = copies element.head :=
    remaining_eq_copies (fun isRoot => kept .once (hoisted isRoot)) (Finset.mem_insert_self _ _)
      (fun conditional => kept .once (chosen conditional)) (by simpa using new)
  have leftInside : remaining (context.annotations.get element.head.id) element.head
      (insert .hoist (insert .once visited)) = copies element.head := by
    rw [remaining_insert, left, List.filter_eq_self]
    unfold copies
    split <;> simp
  exact .once (by simpa using chosen) (yields_remaining parts left fun _ => plain)
    (yields_remaining parts leftInside fun _ => plain)

def choice (head : Head) : List Layer := if head.condition.isSome then [.choose] else []

theorem yields_once (parts : PartsWritten context element) (isOnce : element.head.isOnce = true)
    (hoisted : (context.annotations.get element.head.id).isRoot = true → .hoist ∈ visited)
    (unchosen : .choose ∉ visited) (new : .loop ∉ visited) :
    Yields context ⟨.layer .once, element, visited⟩ (layered context element
      (choice element.head ++
        (if (context.annotations.get element.head.id).isInLoop then .once else .hoist) ::
          copies element.head)) := by
  unfold choice
  split
  · next conditional =>
    have asked : .choose ∉ insert Layer.once visited := by simpa using unchosen
    refine .chosenOnce conditional asked (.choose parts (.block (fun plain => ?_) fun _ => ?_))
    · rw [isOnce] at plain
      cases plain
    · exact yields_once_chosen parts (by simpa using hoisted) (by simp) (by simpa using new)
  · next unconditional =>
    exact yields_once_chosen parts hoisted (fun conditional => absurd conditional unconditional) new

theorem layers_eq_remaining {flags : Flags} {head : Head} (plain : head.isOnce = false) :
    remaining flags head ∅ = layers flags head := by
  simp only [remaining, layers, List.filter_cons, List.filter_nil, Layer.isAsked, plain]
  cases flags.isRoot <;> cases head.loop.isSome <;> cases head.condition.isSome <;> rfl

theorem layers_once {flags : Flags} {head : Head} (isOnce : head.isOnce = true) :
    layers flags head = (if flags.isRoot then [.hoist] else []) ++
      (choice head ++ (if flags.isInLoop then .once else .hoist) :: copies head) := by
  simp only [layers, isOnce, choice, copies, if_true]

/-- By calls the layers of an element are entered in their order. -/
theorem yields_element (parts : PartsWritten context element) :
    Yields context ⟨.element, element, ∅⟩ (writeElement context element) := by
  rw [writeElement_eq_layered]
  cases isOnce : element.head.isOnce with
  | false =>
    refine yields_remaining parts (layers_eq_remaining isOnce) fun once => ?_
    rw [isOnce] at once
    cases once
  | true =>
    rw [layers_once isOnce]
    cases isRoot : (context.annotations.get element.head.id).isRoot with
    | false =>
      have asked : nextLayer? (context.annotations.get element.head.id) element.head ∅ =
          some .once := by
        simp [nextLayer?, remaining, List.filter_cons, Layer.isAsked, isOnce, isRoot]
      exact .next asked (yields_once parts isOnce (by simp [isRoot]) (by simp) (by simp))
    | true =>
      have asked : nextLayer? (context.annotations.get element.head.id) element.head ∅ =
          some .hoist := by
        simp [nextLayer?, remaining, List.filter_cons, Layer.isAsked, isRoot]
      have askedInside : nextLayer? (context.annotations.get element.head.id) element.head
          (insert .hoist ∅) = some .once := by
        simp [nextLayer?, remaining, List.filter_cons, Layer.isAsked, isOnce]
      exact .next asked (.hoist (.next askedInside
        (yields_once parts isOnce (by simp) (by simp) (by simp))))

theorem yields_block (parts : PartsWritten context element)
    (unrooted : element.head.isOnce = true →
      (context.annotations.get element.head.id).isRoot = false) :
    Yields context ⟨.block, element, ∅⟩ (writeElement context element) := by
  refine .block (fun _ => yields_element parts) fun isOnce => ?_
  have noRoot := unrooted isOnce
  rw [writeElement_eq_layered, layers_once isOnce, noRoot]
  exact yields_once parts isOnce (by simp [noRoot]) (by simp) (by simp)

end Element

/-! ## Trees -/

/-- No branch that is rendered once is marked as a root. -/
def OnceUnrooted (annotations : Annotations) (element : Element) : Prop :=
  ∀ branch ∈ element.branches, branch.block.head.isOnce = true →
    (annotations.get branch.block.head.id).isRoot = false

section Trees

variable {context : Context}

theorem mapM_attemptNode {nodes : List Node} {loops : List (Option String)}
    (each : ∀ child, .element child ∈ nodes →
      Yields context ⟨.element, child, ∅⟩ (writeElement context child)) :
    nodes.mapM (attemptNode context (Call.outcome context) loops) =
      certainly ((nodeWriters context nodes).mapM fun writer => writer loops) := by
  induction nodes with
  | nil => rfl
  | cons node rest ih =>
    have first : attemptNode context (Call.outcome context) loops node =
        certainly (writeNode context node loops) := by
      cases node with
      | element child =>
        rw [writeNode]
        exact each child List.mem_cons_self loops
      | text run => rfl
      | comment comment => rfl
    rw [nodeWriters, List.mapM_cons, List.mapM_cons, first,
      ih fun child held => each child (List.mem_cons_of_mem _ held)]
    rfl

theorem writeChildren_eq (children : List Node) (writers : List Writer)
    (loops : List (Option String)) :
    writeChildren children writers loops = (do
      let codes ← writers.mapM fun writer => writer loops
      return childrenCode children codes) := by
  unfold writeChildren childrenCode
  refine congrArg _ (funext fun codes => ?_)
  split
  · rfl
  · split <;> rfl

theorem attemptBranches_eq {branches : List Branch} {loops : List (Option String)}
    (each : ∀ branch ∈ branches,
      Yields context ⟨.block, branch.block, ∅⟩ (writeElement context branch.block)) :
    attemptBranches (Call.outcome context) loops branches =
      certainly (writeBranches loops (branchWriters context branches)) := by
  induction branches with
  | nil => rfl
  | cons branch rest ih =>
    obtain ⟨first, others⟩ := List.forall_mem_cons.mp each
    obtain ⟨condition, block⟩ := branch
    rw [branchWriters]
    cases condition with
    | none => exact first loops
    | some condition =>
      rw [attemptBranches, writeBranches, first loops, ih others]
      rfl

theorem partsWritten {element : Element}
    (unrooted : element.Throughout (OnceUnrooted context.annotations)) :
    PartsWritten context element := by
  induction count : element.count using Nat.strong_induction_on generalizing element with
  | _ bound ih =>
    obtain ⟨own, below⟩ := Element.throughout_iff.mp unrooted
    refine ⟨fun visited loops => ?_, fun loops => attemptBranches_eq fun branch held => ?_⟩
    · have inside (child : Element) (held : .element child ∈ element.children) :
          Yields context ⟨.element, child, ∅⟩ (writeElement context child) :=
        yields_element (ih child.count (count ▸ Element.count_child held)
          (below.children child held) rfl)
      rw [outcome_eq]
      simp only [Call.body]
      rw [mapM_attemptNode inside, writeChildren_eq]
      rfl
    · exact yields_block (ih branch.block.count (count ▸ Element.count_branch held)
        (below.branches branch held) rfl) (own branch held)

theorem run_eq_writeElement {element : Element}
    (unrooted : element.Throughout (OnceUnrooted context.annotations)) {depth : Nat}
    (deep : 40 * (element.count + 1) ≤ depth) (loops : List (Option String)) :
    Call.run context depth ⟨.element, element, ∅⟩ loops =
      certainly (writeElement context element loops) := by
  have above : Call.rank ⟨.element, element, ∅⟩ < depth := lt_of_lt_of_le (rank_lt _) deep
  rw [run_eq_outcome above]
  exact yields_element (partsWritten unrooted) loops

/-- A paragraph with another that takes its place and is rendered once. -/
def rootedBranch : Element :=
  ⟨{ Head.new 0 "p" [] ⟨0, 0⟩ with condition := some "a" }, [],
    [⟨none, ⟨{ Head.new 1 "b" [] ⟨0, 0⟩ with isOnce := true }, [], []⟩⟩]⟩

/-- Where the other paragraph is marked as a root all the same, its layers are two fragments. -/
example :
    let context : Context := ⟨Web.settings, ⟨[.none, ⟨true, false, true⟩]⟩⟩
    let call : Call := ⟨.element, rootedBranch, ∅⟩
    (call.run context 12 [] .empty).map (·.2.fragments.length) = some 1 ∧
      ((writeElement context rootedBranch []).run .empty).2.fragments.length = 2 := by
  decide +kernel

end Trees

/-! ## Writing ends -/

/-- Writing by calls comes to an end, whatever the element and whatever is marked. -/
structure Ends (context : Context) : Prop where
  /-- A function depends on nothing but its calls. -/
  determined (call : Call) (callee other : Callee)
    (agree : ∀ next, Calls context call next → callee next = other next) :
    call.body context callee = call.body context other
  grounded : WellFounded fun next call => Calls context call next
  /-- All calls give answers that agree with what the functions do, and to follow a call they are
  nested no deeper than forty for each element and forty more. -/
  answered : ∃ write : (call : Call) → List (Option String) → Gen call.Answer,
    (∀ call loops, call.body context (fun next loops => certainly (write next loops)) loops =
      certainly (write call loops)) ∧
    ∀ call depth, 40 * (call.element.count + 1) ≤ depth → ∀ loops,
      Call.run context depth call loops = certainly (write call loops)
  /-- A call that does not stay on its element goes to a smaller one. -/
  descends (call next : Call) (calls : Calls context call next)
    (leaves : next.element ≠ call.element) : next.element.count < call.element.count
  /-- A cycle that stays on an element keeps its marks and sets one that was not set. -/
  marks (call next : Call) (chain : Relation.TransGen (Calls context) call next)
    (same : next.routine = call.routine) (stays : next.element = call.element) :
    call.visited ⊂ next.visited
  /-- The source that comes out is the one of the layers. -/
  written (element : Element) (unrooted : element.Throughout (OnceUnrooted context.annotations))
    (depth : Nat) (deep : 40 * (element.count + 1) ≤ depth) (loops : List (Option String)) :
    Call.run context depth ⟨.element, element, ∅⟩ loops =
      certainly (writeElement context element loops)

theorem writing_ends (context : Context) : Ends context where
  determined call callee other agree := Call.body_congr agree
  grounded := Calls.wellFounded context
  answered := by
    have certain (call : Call) (loops : List (Option String)) :
        ∃ write : Gen call.Answer, call.outcome context loops = certainly write :=
      (isCertain_run (Nat.lt_succ_self _) loops).exists_eq
    choose write same using certain
    have answers : Call.outcome context = fun call loops => certainly (write call loops) :=
      funext fun call => funext (same call)
    refine ⟨write, fun call loops => ?_, fun call depth deep loops => ?_⟩
    · rw [← same, outcome_eq, answers]
    · rw [run_eq_outcome (lt_of_lt_of_le (rank_lt call) deep)]
      exact same call loops
  descends call next calls leaves :=
    calls.stays_or_descends.resolve_left fun stays => leaves stays.1
  marks _ _ chain same stays := Calls.marks_cycle chain same stays
  written element unrooted depth deep loops := run_eq_writeElement unrooted deep loops

/-- A paragraph that is rendered once, under a condition. -/
def announcement : Element :=
  ⟨{ Head.new 0 "p" [] ⟨0, 0⟩ with condition := some "a", isOnce := true }, [], []⟩

/-- The function of a subtree that is rendered once is called again behind its condition: the mark
of the condition is new. -/
theorem announcement_marks :
    Relation.TransGen (Calls ⟨Web.settings, ⟨[]⟩⟩) ⟨.layer .once, announcement, ∅⟩
        ⟨.layer .once, announcement, {.choose, .once}⟩ ∧
      (∅ : Finset Layer) ⊂ {.choose, .once} := by
  have chosen : Calls ⟨Web.settings, ⟨[]⟩⟩ ⟨.layer .once, announcement, ∅⟩
      ⟨.layer .choose, announcement, {.once}⟩ := .chosenOnce rfl (by decide)
  have chain : Relation.TransGen (Calls ⟨Web.settings, ⟨[]⟩⟩) ⟨.layer .once, announcement, ∅⟩
      ⟨.layer .once, announcement, {.choose, .once}⟩ :=
    .tail (.tail (.single chosen) (.chosen announcement {.once})) (.blockOnce rfl)
  exact ⟨chain, (writing_ends ⟨Web.settings, ⟨[]⟩⟩).marks _ _ chain rfl rfl⟩

theorem analyze_unrooted {settings : Settings} {annotations : Annotations} {root : Element}
    (settled : root.Throughout Element.IsSettled)
    (holds : annotations.Holds (root.annotate settings ⟨false, false, false⟩)) :
    root.Throughout (OnceUnrooted annotations) := by
  intro above element lineage branch held isOnce
  have way := lineage.trans (.branch held (.here branch.block))
  obtain ⟨here, inside, -⟩ := way.holds settled holds
  rw [inside.own]
  by_contra isRoot
  have isStatic : branch.block.isStatic settings here.inTemplateLoop = true := by
    simp only [Element.flags, Head.flags, Bool.not_eq_false, Bool.and_eq_true] at isRoot
    exact isRoot.1.2
  have never := ((settled _ _ way).isFixed isStatic).isOnce
  rw [isOnce] at never
  cases never

theorem compile_unrooted {settings : Settings} (faithful : settings.IsFaithful)
    (keeps : ∀ extension ∈ settings.extensions, extension.KeepsNumber) (template : String) :
    ∀ root ∈ (compile settings template).document.root,
      root.Throughout (OnceUnrooted (compile settings template).annotations) := by
  obtain ⟨parsed, annotated, -⟩ := compile_parts settings template
  have settled := parse_settled faithful (trimmed template)
  have holds := analyze_holds keeps (trimmed template)
  rw [← parsed] at settled holds
  intro root held
  rw [annotated]
  split
  · exact analyze_unrooted (settled root held) (holds root held)
  · exact fun above element lineage branch held isOnce => rfl

/-- Every template that is compiled is written by calls as it is from the inside out. -/
theorem compile_byCalls {settings : Settings} (faithful : settings.IsFaithful)
    (keeps : ∀ extension ∈ settings.extensions, extension.KeepsNumber) (template : String)
    {root : Element} (held : root ∈ (compile settings template).document.root) {depth : Nat}
    (deep : 40 * (root.count + 1) ≤ depth) (loops : List (Option String)) :
    Call.run ⟨settings, (compile settings template).annotations⟩ depth ⟨.element, root, ∅⟩ loops =
      certainly (writeElement ⟨settings, (compile settings template).annotations⟩ root loops) := by
  have unrooted := compile_unrooted faithful keeps template root held
  generalize (compile settings template).annotations = annotations at unrooted ⊢
  exact run_eq_writeElement unrooted deep loops

end Templating.Rendering
