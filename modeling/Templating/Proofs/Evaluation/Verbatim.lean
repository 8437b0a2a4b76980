import Templating.Proofs.Evaluation.Inlined
import Templating.Proofs.Evaluation.Mirror
import Templating.Proofs.Evaluation.Shown
import Templating.Proofs.Translation.Verbatim
/-!
# Verbatim parts do not depend on data

The code of a verbatim element evaluates to the same whatever data a render is
bound to, wherever no binding hides a helper, and never fails: a helper makes a
node of what it is given, and an outlet shows its content unless nodes are given
for it.
-/
set_option autoImplicit false

namespace Templating.Evaluation

open Templating.Text Templating.Data Templating.Expression Templating.Rendering Templating.Template

/-! ## Code with one result -/

/-- With these nodes for outlets, and functions nested at least so deep, the code
always gives the result. -/
def Settles (slots : Dictionary (List Tree.Node)) (need : Nat) (source : Expr) (result : Datum) : Prop :=
  ∀ environment : Environment, environment.slots = slots → ∀ fragment depth, need ≤ depth →
    ∀ scope, HidesNoHelper scope → evaluateCalls environment fragment depth scope source = pure result

def BecomesFragment (result : Datum) : Prop :=
  ∀ index, ∃ fragment, Fragment.ofDatum index result = .ok fragment

theorem BecomesFragment.node (node : Tree.Node) : BecomesFragment (.node node) := by
  intro index
  cases node with
  | element tag props children => exact ⟨_, rfl⟩
  | text content => exact ⟨_, rfl⟩
  | comment content => exact ⟨_, rfl⟩

theorem BecomesFragment.list (items : List Datum) : BecomesFragment (.list items) := fun _ => ⟨_, rfl⟩

theorem BecomesFragment.undefined : BecomesFragment .undefined := fun _ => ⟨_, rfl⟩

section Settles

variable {slots : Dictionary (List Tree.Node)} {need : Nat}

theorem Settles.mono {source : Expr} {result : Datum} (settles : Settles slots need source result)
    {more : Nat} (less : need ≤ more) : Settles slots more source result :=
  fun environment given fragment depth deep => settles environment given fragment depth (less.trans deep)

theorem Settles.evaluates {source : Expr} {result : Datum} (settles : Settles slots need source result)
    {environment : Environment} (given : environment.slots = slots) (fragment : Expr → Eval Datum)
    {depth : Nat} (deep : need ≤ depth) {scope : Scope} (hides : HidesNoHelper scope) :
    evaluate environment (entrance environment fragment depth) scope source = pure result := by
  rw [← evaluateCalls_entrance]
  exact settles environment given fragment depth deep scope hides

theorem settles_constant {source : Expr} (constant : IsConstant source) :
    ∃ value, ∀ slots need, Settles slots need source value := by
  obtain ⟨value, -, always⟩ := evaluate_constant source constant
  refine ⟨value, fun _ _ environment _ fragment depth _ scope _ => ?_⟩
  rw [evaluateCalls_entrance, always]

theorem settles_literal (value : Value) : Settles slots need (.literal value) (.plain value) := by
  intro environment _ fragment depth _ scope _
  rw [evaluateCalls_entrance, evaluate]

theorem settles_text (content : String) : Settles slots need (textExpr content) (.ofString content) :=
  settles_literal (.string content)

theorem evaluateAll_settles {sources : List Expr} {values : List Datum}
    (each : List.Forall₂ (Settles slots need) sources values) {environment : Environment}
    (given : environment.slots = slots) (fragment : Expr → Eval Datum) {depth : Nat}
    (deep : need ≤ depth) {scope : Scope} (hides : HidesNoHelper scope) :
    evaluateAll environment (entrance environment fragment depth) scope sources = pure values := by
  induction each with
  | nil => rw [evaluateAll]
  | cons first _ ih =>
    rw [evaluateAll, first.evaluates given fragment deep hides, pure_bind, ih, pure_bind]

theorem Settles.list {sources : List Expr} {values : List Datum}
    (each : List.Forall₂ (Settles slots need) sources values) :
    Settles slots need (.list sources) (.list values) := by
  intro environment given fragment depth deep scope hides
  rw [evaluateCalls_entrance, evaluate, evaluateAll_settles each given fragment deep hides, pure_bind]

theorem Settles.call {name : String} (helper : startsWith ['_'] name.toList = true) {sources : List Expr}
    {values : List Datum} (each : List.Forall₂ (Settles slots need) sources values) {result : Datum}
    (made : ∀ environment enter, callBuiltin environment enter name values = pure result) :
    Settles slots need (helperCall name sources) result := by
  intro environment given fragment depth deep scope hides
  rw [evaluateCalls_entrance, evaluate_helperCall helper (hides.lookup helper),
    evaluateAll_settles each given fragment deep hides, pure_bind, made]

/-! ## Helpers -/

theorem createElement_named {tag : String} (named : tag ≠ "") (others : List Datum) :
    ∃ node, createElement (.ofString tag :: others) = .ok (.node node) := by
  have unnamed : (tag == "") = false := beq_eq_false_iff_ne.mpr named
  simp only [createElement, Datum.ofString, unnamed, Bool.false_eq_true, if_false]
  split <;> exact ⟨_, rfl⟩

theorem Settles.element {head : Head} (still : IsStill head) (named : head.tag ≠ "") {inner : Option Expr}
    {content : Datum} (settles : ∀ body ∈ inner, Settles slots need body content) :
    ∃ node : Tree.Node,
      Settles slots need (helperCall "_c" (literalArguments head ++ inner.toList)) (.node node) := by
  have constant : IsConstant (.record (literalFields head)) := by
    rw [← @dataMeaning_of_still .neutral _ still rfl false]
    exact still.data_isConstant .neutral
  obtain ⟨data, settlesData⟩ := settles_constant constant
  have given : ∃ others, List.Forall₂ (Settles slots need)
      (literalArguments head ++ inner.toList) (.ofString head.tag :: others) := by
    unfold literalArguments
    have behind : ∃ values, List.Forall₂ (Settles slots need) inner.toList values := by
      cases inner with
      | none => exact ⟨[], .nil⟩
      | some body => exact ⟨[content], .cons (settles body rfl) .nil⟩
    obtain ⟨values, each⟩ := behind
    cases (literalFields head).isEmpty with
    | true => exact ⟨values, .cons (settles_text head.tag) each⟩
    | false => exact ⟨data :: values, .cons (settles_text head.tag) (.cons (settlesData slots need) each)⟩
  obtain ⟨others, each⟩ := given
  obtain ⟨node, made⟩ := createElement_named named others
  refine ⟨node, .call (by decide) each fun environment enter => ?_⟩
  rw [callBuiltin, made]
  rfl

/-! ## Outlets -/

/-- What an outlet shows: the nodes that are given for it, or what stands in it. -/
def filled (slots : Dictionary (List Tree.Node)) (otherwise : Datum) : Datum :=
  match Dictionary.find? "default" slots with
  | some nodes => .list (nodes.map .node)
  | none => otherwise

theorem BecomesFragment.filled {otherwise : Datum} (becomes : BecomesFragment otherwise) :
    BecomesFragment (filled slots otherwise) := by
  unfold Evaluation.filled
  split
  · exact .list _
  · exact becomes

theorem shown_default : Datum.shown (some (.ofString "default")) = "default" := rfl

theorem Settles.outlet {body : Expr} {content : Datum} (settles : Settles slots need body content)
    {others : List Expr} {values : List Datum}
    (each : List.Forall₂ (Settles slots (need + 1)) others values) :
    Settles slots (need + 1) (helperCall "_t" (textExpr "default" :: .function [] body :: others))
      (filled slots content) := by
  rintro environment rfl fragment (_ | depth) deep scope hides
  · cases deep
  have helper : startsWith ['_'] "_t".toList = true := by decide
  have inside := settles environment rfl fragment depth (Nat.le_of_succ_le_succ deep) scope hides
  rw [evaluateCalls_entrance, evaluate_helperCall helper (hides.lookup helper)]
  simp only [evaluateAll, (settles_text "default").evaluates rfl fragment deep hides, evaluate,
    evaluateAll_settles each rfl fragment deep hides, pure_bind]
  rw [callBuiltin, renderOutlet, List.getElem?_cons_zero, shown_default, filled]
  cases Dictionary.find? "default" environment.slots with
  | some nodes => rfl
  | none => exact inside

theorem Settles.emptyOutlet {others : List Expr} {values : List Datum}
    (each : List.Forall₂ (Settles slots need) others values)
    (nothing : ∀ datum ∈ values.head?, datum = .plain .null) :
    Settles slots need (helperCall "_t" (textExpr "default" :: others)) (filled slots .undefined) := by
  rintro environment rfl fragment depth deep scope hides
  have helper : startsWith ['_'] "_t".toList = true := by decide
  rw [evaluateCalls_entrance, evaluate_helperCall helper (hides.lookup helper), evaluateAll,
    (settles_text "default").evaluates rfl fragment deep hides, pure_bind,
    evaluateAll_settles each rfl fragment deep hides, pure_bind, pure_bind, callBuiltin, renderOutlet,
    List.getElem?_cons_zero, shown_default, filled]
  cases Dictionary.find? "default" environment.slots with
  | some nodes => rfl
  | none =>
    cases values with
    | nil => rfl
    | cons first rest =>
      obtain rfl := nothing first rfl
      rfl

theorem Settles.outletMeaning {head : Head} (still : IsStill head) {inner : Option Expr} {content : Datum}
    (settles : ∀ body ∈ inner, Settles slots need body content) (becomes : BecomesFragment content) :
    ∃ result, BecomesFragment result ∧ Settles slots (need + 1) (outletMeaning head inner) result := by
  obtain ⟨props, settlesProps⟩ := settles_constant
    (attributesMeaning_isConstant (outletProps_plain still.attributes))
  have given := settlesProps slots (need + 1)
  rw [outletMeaning_of_still still]
  unfold outletArguments
  cases inner with
  | some body =>
    refine ⟨filled slots content, becomes.filled, ?_⟩
    cases head.attributes.isEmpty with
    | true => exact (settles body rfl).outlet .nil
    | false => exact (settles body rfl).outlet (.cons given .nil)
  | none =>
    refine ⟨filled slots .undefined, BecomesFragment.undefined.filled, ?_⟩
    cases head.attributes.isEmpty with
    | true => exact .emptyOutlet .nil fun _ none => by cases none
    | false =>
      exact .emptyOutlet (.cons (settles_literal .null) (.cons given .nil)) fun _ first => by
        cases first
        rfl

end Settles

/-! ## Raw trees -/

mutual

/-- How deep outlets are nested in the tree. -/
def outletDepth : Element → Nat
  | ⟨head, children, _⟩ =>
    if head.tag == "slot" then outletDepthOfNodes children + 1 else outletDepthOfNodes children

def outletDepthOfNodes : List Template.Node → Nat
  | [] => 0
  | .element element :: rest => max (outletDepth element) (outletDepthOfNodes rest)
  | .text _ :: rest => outletDepthOfNodes rest
  | .comment _ :: rest => outletDepthOfNodes rest

end

section Raw

variable (slots : Dictionary (List Tree.Node))

/-- A still element around children with one result each. -/
theorem literalCore_settles {head : Head} (still : IsStill head) (named : head.tag ≠ "") {need : Nat}
    {parts : List Expr} {values : List Datum} (each : List.Forall₂ (Settles slots need) parts values) :
    ∃ result, BecomesFragment result ∧
      Settles slots (if head.tag == "slot" then need + 1 else need) (literalCore head parts) result := by
  have inner : ∀ body ∈ (if parts.isEmpty then none else some (.list parts) : Option Expr),
      Settles slots need body (.list values) := by
    intro body held
    split at held
    · cases held
    · cases held
      exact .list each
  unfold literalCore
  dsimp only
  generalize (if parts.isEmpty then none else some (.list parts) : Option Expr) = body at inner ⊢
  split
  · exact Settles.outletMeaning still inner (.list values)
  · obtain ⟨node, settles⟩ := Settles.element still named inner
    exact ⟨.node node, .node node, settles⟩

mutual

theorem rawMeaning_settles (element : Element) (raw : RawElement element) :
    ∃ result, BecomesFragment result ∧
      Settles slots (outletDepth element) (rawMeaning element) result := by
  match element, raw with
  | ⟨head, children, branches⟩, ⟨rawHead, named, below, _⟩ =>
    obtain ⟨values, each⟩ := rawMeanings_settle children below
    exact literalCore_settles slots (IsRaw.isStill rawHead) named.nonempty each

theorem rawMeanings_settle (nodes : List Template.Node) (raw : RawNodes nodes) :
    ∃ values, List.Forall₂ (Settles slots (outletDepthOfNodes nodes)) (rawMeanings nodes) values := by
  match nodes, raw with
  | [], _ => exact ⟨[], .nil⟩
  | .element element :: rest, ⟨first, others⟩ =>
    obtain ⟨value, -, here⟩ := rawMeaning_settles element first
    obtain ⟨values, each⟩ := rawMeanings_settle rest others
    exact ⟨value :: values, .cons (here.mono (Nat.le_max_left _ _))
      (each.imp fun _ _ settles => settles.mono (Nat.le_max_right _ _))⟩
  | .text run :: rest, ⟨_, others⟩ =>
    obtain ⟨values, each⟩ := rawMeanings_settle rest others
    refine ⟨.node (.text run.content) :: values, .cons ?_ each⟩
    exact .call (by decide) (.cons (settles_text run.content) .nil) fun _ _ => rfl
  | .comment comment :: rest, ⟨_, others⟩ =>
    obtain ⟨values, each⟩ := rawMeanings_settle rest others
    refine ⟨.node (.comment comment.content) :: values, .cons ?_ each⟩
    exact .call (by decide) (.cons (settles_text comment.content) .nil) fun _ _ => rfl

end

end Raw

/-! ## Fragments of raw trees -/

/-- Where these fragments stand from the number on, and no binding hides a
helper, the code evaluates to the same with all data, and does not fail. -/
def EvaluatesAlike (need first : Nat) (source : Expr) (fragments : List Expr) : Prop :=
  ∀ (slots : Dictionary (List Tree.Node)) (cache : FragmentCache), ∃ result after,
    ∀ environment : Environment, environment.slots = slots →
      fragments <+: environment.fragments.drop first →
      ∀ inner levels depth, need ≤ inner → need ≤ depth → ∀ scope, HidesNoHelper scope →
        evaluateCalls environment (evaluateFragments environment inner levels) depth scope source cache =
          (.ok result, after)

theorem evaluatesAlike_of_settles {need : Nat} {source : Expr}
    (settles : ∀ slots, ∃ result, BecomesFragment result ∧ Settles slots need source result) (first : Nat) :
    EvaluatesAlike need first source [] := by
  intro slots cache
  obtain ⟨result, -, always⟩ := settles slots
  refine ⟨result, cache, fun environment given _ inner levels depth _ deep scope hides => ?_⟩
  rw [always environment given _ depth deep scope hides]
  rfl

section Fragment

variable {need first : Nat} {source : Expr} {result : Datum} {kept : Fragment}
  {environment : Environment}

theorem buildFragment_settles (settles : Settles environment.slots need source result)
    (becomes : Fragment.ofDatum first result = .ok kept)
    (stands : [source] <+: environment.fragments.drop first) {inner : Nat} (deep : need ≤ inner)
    (levels : Nat) {enter : Entrance} (enters : enter.fragment = evaluateFragments environment inner levels) :
    Gives (buildFragment environment enter first) (.ok kept) := by
  obtain ⟨fragment, inCalls⟩ := evaluateFragments_eq environment inner levels
  have found : environment.fragments[first]? = some source := by
    obtain ⟨rest, same⟩ := stands
    rw [← Nat.add_zero first, ← List.getElem?_drop, ← same]
    rfl
  intro cache
  rw [buildFragment, found, enters]
  dsimp only
  have run := settles environment rfl fragment inner deep [] fun _ held => by cases held
  rw [inCalls, run, pure_bind, becomes]
  rfl

/-- A call of the fragment evaluates alike, as far as its number is exact.  One
that is kept already is what it gives. -/
theorem fragmentCall_alike
    (settles : ∀ slots, ∃ result, BecomesFragment result ∧ Settles slots need source result)
    (exact : first < Number.twoTo 53) (inLoop : Bool) :
    EvaluatesAlike need first (fragmentCall first inLoop) [source] := by
  intro slots cache
  obtain ⟨result, becomes, always⟩ := settles slots
  obtain ⟨kept, made⟩ := becomes first
  -- What is kept for the number counts, even if it was built of something else.
  let given : Fragment × FragmentCache :=
    if inLoop then (kept, cache)
    else (cache.lookup first).elim (kept, (first, kept) :: cache) fun earlier => (earlier, cache)
  refine ⟨given.1.toDatum, given.2, ?_⟩
  rintro environment rfl stands inner levels depth deep - scope hides
  have builds := buildFragment_settles always made stands deep levels
    (entrance_fragment environment (evaluateFragments environment inner levels) depth)
  rw [evaluateCalls_entrance, evaluate_fragmentCall exact (hides.lookup (by decide)), run_bind]
  cases inLoop with
  | true =>
    rw [if_pos rfl, builds cache]
    rfl
  | false =>
    rw [if_neg Bool.false_ne_true, @keptFragment_run (fun _ => .ok kept) _ _ _ builds cache]
    simp only [given, Bool.false_eq_true, if_false]
    cases cache.lookup first <;> rfl

end Fragment

/-! ## Verbatim elements of a template -/

/-- What is written from the draft on, and what it is read as: fixed code, or the
call of a fragment of fixed code, which is added. -/
inductive WritesFixed (draft : Draft) : Code × Draft → Expr → List Expr → Prop where
  | inPlace {code : Code} {source : Expr} (reads : parseProgram? code.wrapped.text = some source)
    (fixed : IsFixed source) : WritesFixed draft (code, draft) source []
  | hoisted {inLoop : Bool} {fragment : Code} {source : Expr}
    (called : parseProgram? (Code.wrapped [.fragment draft.fragments.length inLoop]).text =
      some (fragmentCall draft.fragments.length inLoop))
    (reads : parseProgram? fragment.text = some source) (fixed : IsFixed source) :
    WritesFixed draft ([.fragment draft.fragments.length inLoop],
        { draft with fragments := draft.fragments ++ [fragment] })
      (fragmentCall draft.fragments.length inLoop) [source]

theorem raw_writesFixed {context : Context} (standard : StandardSettings (undirected context.settings))
    {element : Element} (raw : RawElement element) (itself : element.All StandsForItself)
    (below : NodesUnhoisted context.annotations element.children) (loops : List (Option String))
    (draft : Draft) :
    ∃ source fragments,
      WritesFixed draft ((writeElement context element loops).run draft) source fragments ∧
        (draft.fragments.length < Number.twoTo 53 →
          EvaluatesAlike (outletDepth element) draft.fragments.length source fragments) := by
  obtain ⟨code, writes, reads⟩ := raw_reads standard element raw itself
  have settles := fun slots => rawMeaning_settles slots element raw
  have fixed := rawMeaning_isFixed element raw
  cases isRoot : (context.annotations.get element.head.id).isRoot with
  | false =>
    have unhoisted : Unhoisted context.annotations element := by
      obtain ⟨head, children, branches⟩ := element
      exact ⟨isRoot, below⟩
    refine ⟨rawMeaning element, [], ?_, fun _ => evaluatesAlike_of_settles settles _⟩
    rw [raw_writes element raw unhoisted, writes loops]
    exact .inPlace (wrapped_reads reads) fixed
  | true =>
    let inLoop := (context.annotations.get element.head.id).isInLoop
    refine ⟨fragmentCall draft.fragments.length inLoop, [rawMeaning element], ?_,
      fun exact => fragmentCall_alike settles exact inLoop⟩
    rw [raw_hoisted raw isRoot below writes]
    exact .hoisted (wrapped_reads (fragmentCall_reads _ _)) (wrapped_reads reads) fixed

/-- A verbatim element of a template and all that is below it are raw: nothing in
them is source.  Whatever is around, its code is fixed, and evaluates to the same
with all data, without failing, as far as functions may nest as deep as outlets
do in it and the number of its fragment is exact. -/
theorem compile_verbatim {base : Settings} (known : IsBase base) {overlay : Overlay}
    (bare : overlay.extensions = []) (template : String) :
    let compiled := compile (base.overlaid overlay) template
    ∀ root ∈ compiled.document.root, root.Throughout fun element => element.head.isVerbatim = true →
      RawElement element ∧ ∀ loops draft, ∃ source fragments,
        WritesFixed draft
            ((writeElement ⟨base.overlaid overlay, compiled.annotations⟩ element loops).run draft)
            source fragments ∧
          (draft.fragments.length < Number.twoTo 53 →
            EvaluatesAlike (outletDepth element) draft.fragments.length source fragments) := by
  obtain ⟨parsed, annotated, -⟩ := compile_parts (base.overlaid overlay) template
  have standard := undirected_standard known bare
  have settled := parse_settled (bare_isFaithful known bare) (trimmed template)
  have numbered := analyze_holds (bare_keepsNumber known bare) (trimmed template)
  rw [← parsed] at settled numbered
  dsimp only
  generalize compile (base.overlaid overlay) template = compiled at annotated settled numbered ⊢
  intro root held above element lineage verbatim
  have own := settled root held above element lineage
  have settledBelow : element.Throughout Element.IsSettled := fun between inner further =>
    settled root held (above ++ between) inner (lineage.trans further)
  have raw := own.raw verbatim
  have itself := standsForItself_of_isInert element raw settledBelow (.inl verbatim)
  have below : NodesUnhoisted compiled.annotations element.children := by
    rw [annotated]
    split
    · obtain ⟨here, holds, -⟩ := lineage.holds (settled root held) (numbered root held)
      exact verbatim_unhoisted own verbatim holds
    · exact nodesUnhoisted_empty element.children
  exact ⟨raw, raw_writesFixed standard raw itself below⟩

/-- A binding, an outlet and a text that would be source elsewhere, and the end of
a line break that was not opened. -/
def bracedSource : String :=
  "<div v-pre :a=\"b\"><slot name=\"c\">\x7b\x7b d \x7d\x7d</slot></br></div>"

theorem bracedSource_verbatim :
    IsBase Web.settings ∧ Overlay.empty.extensions = [] ∧
      ∃ root ∈ (compile (Web.settings.overlaid .empty) bracedSource).document.root,
        root.head.isVerbatim = true ∧ outletDepth root = 1 ∧
        Draft.empty.fragments.length < Number.twoTo 53 ∧ RawElement root ∧
        ∃ source fragments,
          WritesFixed .empty ((writeElement ⟨Web.settings.overlaid .empty,
              (compile (Web.settings.overlaid .empty) bracedSource).annotations⟩ root []).run .empty)
            source fragments ∧
          EvaluatesAlike (outletDepth root) 0 source fragments := by
  have given : (compile (Web.settings.overlaid .empty) bracedSource).document.root.map
      (fun root => (root.head.isVerbatim, outletDepth root)) = some (true, 1) := by decide +kernel
  obtain ⟨root, held, shape⟩ := Option.map_eq_some_iff.mp given
  obtain ⟨verbatim, depth⟩ := Prod.mk.inj shape
  have exact : Draft.empty.fragments.length < Number.twoTo 53 := by decide +kernel
  obtain ⟨raw, written⟩ :=
    compile_verbatim (.inl rfl) rfl bracedSource root held [] root (.here root) verbatim
  obtain ⟨source, fragments, writes, alike⟩ := written [] .empty
  exact ⟨.inl rfl, rfl, root, held, verbatim, depth, exact, raw, source, fragments, writes, alike exact⟩

end Templating.Evaluation
