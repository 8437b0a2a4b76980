import Templating.Proofs.Evaluation.Mirror
import Templating.Proofs.Evaluation.Shown
import Templating.Proofs.Translation.Repeated
/-!
# Keys identify siblings

A translation calls each fragment in the place that it has left for it, so that
siblings call different ones.  Their keys differ, where no loop shows a static
root.
-/
set_option autoImplicit false

namespace Templating.Evaluation

open Templating.Text Templating.Data Templating.Expression Templating.Template Templating.Rendering

/-! ## Steps of a translation -/

section Steps

variable (stage : Stage)

/-- Each fragment shows own keys of earlier ones. -/
def KeepsOwn (kept : Kept) : Prop :=
  ∀ (index : Nat) (source : Expr), kept.fragments[index]? = some source →
    ∃ first, YieldsOwn stage False first index source

/-- The step keeps such fragments only.  Its result has the property for the
numbers of the fragments that it adds. -/
def TranslatesOwn {α : Type} (holds : Nat → Nat → α → Prop) (translate : Translation α) : Prop :=
  ∀ kept, KeepsOwn stage kept → KeepsOwn stage (translate.run kept).2 ∧
    kept.fragments.length ≤ (translate.run kept).2.fragments.length ∧
    holds kept.fragments.length (translate.run kept).2.fragments.length (translate.run kept).1

def TranslatorYields (quiet : Prop) (translator : Translator) : Prop :=
  ∀ loops, TranslatesOwn stage (YieldsOwn stage quiet) (translator loops)

variable {stage} {α β : Type} {holds : Nat → Nat → α → Prop} {final : Nat → Nat → β → Prop}

theorem TranslatesOwn.pure {result : α} (given : ∀ first, holds first first result) :
    TranslatesOwn stage holds (return result) :=
  fun _ sound => ⟨sound, Nat.le_refl _, given _⟩

theorem TranslatesOwn.bind {translate : Translation α} {next : α → Translation β}
    {holdsThen : Nat → Nat → β → Prop} (one : TranslatesOwn stage holds translate)
    (two : ∀ result, TranslatesOwn stage (fun middle last value => ∀ first, first ≤ middle →
      holds first middle result → middle ≤ last → holdsThen first last value) (next result)) :
    TranslatesOwn stage holdsThen (translate >>= next) := by
  intro kept sound
  obtain ⟨soundThen, ordered, given⟩ := one kept sound
  obtain ⟨soundLast, further, makes⟩ := two (translate.run kept).1 _ soundThen
  exact ⟨soundLast, ordered.trans further, makes _ ordered given further⟩

theorem TranslatesOwn.map {translate : Translation α} {change : α → β}
    (one : TranslatesOwn stage holds translate)
    (given : ∀ first last result, holds first last result → final first last (change result)) :
    TranslatesOwn stage final (translate >>= fun result => return change result) :=
  one.bind fun _ => .pure fun _ _ _ held _ => given _ _ _ held

theorem TranslatesOwn.mono {translate : Translation α} {weaker : Nat → Nat → α → Prop}
    (one : TranslatesOwn stage holds translate)
    (given : ∀ first last result, holds first last result → weaker first last result) :
    TranslatesOwn stage weaker translate := by
  intro kept sound
  obtain ⟨soundThen, ordered, held⟩ := one kept sound
  exact ⟨soundThen, ordered, given _ _ _ held⟩

theorem TranslatorYields.mono {translator : Translator} {quiet other : Prop}
    (yields : TranslatorYields stage quiet translator) (implied : other → quiet) :
    TranslatorYields stage other translator :=
  fun loops => (yields loops).mono fun _ _ _ shows => shows.mono (Nat.le_refl _) (Nat.le_refl _) implied

end Steps

/-! ## Elements -/

section Elements

variable {stage : Stage} {quiet : Prop}

theorem parts_own {translators : List Translator}
    (each : ∀ translator ∈ translators, TranslatorYields stage quiet translator)
    (loops : List (Option String)) :
    TranslatesOwn stage (PartsYield stage quiet)
      (translators.mapM fun translator => translator loops) := by
  induction translators with
  | nil => exact .pure fun first => .nil first
  | cons translator rest ih =>
    obtain ⟨here, later⟩ := List.forall_mem_cons.mp each
    rw [List.mapM_cons]
    refine (here loops).bind fun part => (ih later).map fun middle last others yields => ?_
    exact fun first ordered shows further => .cons ordered further shows yields

theorem children_own {translators : List Translator}
    (each : ∀ translator ∈ translators, TranslatorYields stage quiet translator)
    (children : List Node) (loops : List (Option String)) :
    TranslatesOwn stage (fun first last inner => ∀ source ∈ inner, YieldsOwn stage quiet first last source)
      (childrenMeaning children translators loops) := by
  refine (parts_own each loops).bind fun parts => ?_
  split
  · exact .pure fun _ _ _ _ _ _ held => by cases held
  · next part =>
    refine .pure fun middle first _ yields _ source held => ?_
    obtain rfl := Option.some.inj held
    split
    · cases yields with
      | cons ordered further here later =>
        exact here.mono (Nat.le_refl _) further id
    · exact yields.list
  · refine .pure fun middle first _ yields _ source held => ?_
    obtain rfl := Option.some.inj held
    exact yields.list

theorem YieldsOwn.outletMeaning {first last : Nat} (head : Head) {inner : Option Expr}
    (yields : ∀ source ∈ inner, YieldsOwn stage quiet first last source) :
    YieldsOwn stage quiet first last (outletMeaning head inner) := by
  unfold Rendering.outletMeaning
  cases inner with
  | some inner => exact .outlet _ (yields inner rfl) _
  | none =>
    refine .emptyOutlet _ ?_
    dsimp only
    by_cases given : (!(outletProps head).isEmpty || head.spread.isSome) = true
    · rw [if_pos given]
      exact .inr ⟨_, rfl⟩
    · rw [Bool.not_eq_true, Bool.or_eq_false_iff] at given
      have spread : head.spread = none := by simpa using given.2
      simp [given.1, spread]

/-- What is below a transparent element stands in its place; any other element
is one node without a key. -/
theorem core_own {settings : Settings} {head : Head} {children : List Node}
    {translators : List Translator}
    (each : ∀ translator ∈ translators, TranslatorYields stage quiet translator) {own : Prop}
    (implied : own → isTransparent head = true → quiet) :
    TranslatorYields stage own (coreMeaning settings head children translators) := by
  intro loops
  refine (children_own each children loops).bind fun inner => ?_
  split
  · next transparent =>
    refine .pure fun middle first _ yields _ => ?_
    cases inner with
    | none => exact .literal _
    | some source =>
      refine (yields source rfl).mono (Nat.le_refl _) (Nat.le_refl _) fun given => implied given ?_
      rw [isTransparent, transparent, Bool.true_or]
  · split
    · next outlet =>
      refine .pure fun middle first _ yields _ => .outletMeaning head fun source held => ?_
      refine (yields source held).mono (Nat.le_refl _) (Nat.le_refl _) fun given => implied given ?_
      rw [isTransparent, outlet, Bool.or_true]
    · refine .pure fun middle first _ yields _ => ?_
      have data : YieldsApart stage middle (dataObject settings (!loops.isEmpty) head) := by
        unfold dataObject
        split
        · exact yieldsApart_spread _
        · exact yieldsApart_record _
      have inside : ∀ source ∈ inner.toList, YieldsApart stage middle source :=
        fun source held => (yields source (Option.mem_toList.mp held)).yieldsApart
      split
      · exact .element _ (List.forall_mem_cons.mpr ⟨data, inside⟩)
      · split
        · exact .element _ (List.forall_mem_cons.mpr ⟨data, inside⟩)
        · exact .element _ inside

end Elements

/-! ## Layers -/

section Layers

variable {stage : Stage} {quiet : Prop} {context : Context} {head : Head}
  {branches : List (Option String × Translator)}

theorem chain_own (each : ∀ branch ∈ branches, TranslatorYields stage quiet branch.2)
    (loops : List (Option String)) :
    TranslatesOwn stage (YieldsOwn stage quiet) (branchesMeaning loops branches) := by
  induction branches with
  | nil => exact .pure fun _ => .leaf (.inr rfl) []
  | cons branch rest ih =>
    obtain ⟨condition, translator⟩ := branch
    obtain ⟨here, later⟩ := List.forall_mem_cons.mp each
    cases condition with
    | none => exact here loops
    | some condition =>
      refine (here loops).bind fun block => (ih later).map fun middle last others yields => ?_
      exact fun first ordered shows further => .conditional _ ordered further shows yields

theorem choose_own {inner : Translator} (here : TranslatorYields stage quiet inner)
    (each : ∀ branch ∈ branches, TranslatorYields stage quiet branch.2) :
    TranslatorYields stage quiet (Layer.choose.meaning context head branches inner) := by
  intro loops
  refine (here loops).bind fun block =>
    (chain_own each loops).map fun middle last others yields => ?_
  exact fun first ordered shows further => .conditional _ ordered further shows yields

theorem loop_own {inner : Translator} (here : TranslatorYields stage quiet inner)
    (silent : head.loop.isSome = true → quiet)
    (binds : ∀ header ∈ head.loop, bindsFreely (targetsMeaning header) = true) :
    TranslatorYields stage quiet (Layer.loop.meaning context head branches inner) := by
  intro loops
  simp only [Layer.meaning]
  split
  · next header given =>
    refine (here _).map fun first last body yields => ?_
    exact .loop _ (binds header given)
      (yields.mono (Nat.le_refl _) (Nat.le_refl _) fun _ => silent (by rw [given]; rfl))
  · exact here loops

theorem hoist_run (context : Context) (head : Head) (branches : List (Option String × Translator))
    (inner : Translator) (loops : List (Option String)) (kept : Kept) :
    (Layer.hoist.meaning context head branches inner loops).run kept =
      let (source, after) := (inner loops).run kept
      (helperCall "_m" (numberExpr after.fragments.length ::
          if (context.annotations.get head.id).isInLoop then [booleanExpr true] else []),
        { after with fragments := after.fragments ++ [source] }) := rfl

theorem hoist_own {inner : Translator} (here : TranslatorYields stage quiet inner) :
    TranslatorYields stage False (Layer.hoist.meaning context head branches inner) := by
  intro loops kept sound
  obtain ⟨soundThen, ordered, yields⟩ := here loops kept sound
  rw [hoist_run]
  generalize (inner loops).run kept = result at soundThen ordered yields ⊢
  obtain ⟨source, after⟩ := result
  have length : (after.fragments ++ [source]).length = after.fragments.length + 1 :=
    List.length_append
  dsimp only at ordered yields ⊢
  refine ⟨fun index fragment found => ?_, ?_, ?_⟩
  · rcases Nat.lt_trichotomy index after.fragments.length with inside | rfl | beyond
    · rw [List.getElem?_append_left inside] at found
      exact soundThen index fragment found
    · rw [List.getElem?_concat_length] at found
      obtain rfl := Option.some.inj found
      exact ⟨_, yields.mono (Nat.le_refl _) (Nat.le_refl _) False.elim⟩
    · rw [List.getElem?_eq_none (by rw [length]; exact beyond)] at found
      cases found
  · rw [length]
    exact Nat.le_succ_of_le ordered
  · rw [length]
    exact (YieldsOwn.fragment _ _).mono ordered (Nat.le_refl _) id

end Layers

/-! ## Trees -/

/-- The element is not rendered once, no turn of its loop shows a static root,
and its variables hide no helper. -/
structure RepeatsApart (annotations : Annotations) (element : Element) : Prop where
  repeatable : element.head.isOnce = false
  silent : RepeatsNoRoot annotations element
  binds : ∀ header ∈ element.head.loop, bindsFreely (targetsMeaning header) = true

theorem foldr_layer {f : Layer → Translator → Translator} (chosen : Bool) (layer : Layer)
    (inner : Translator) :
    (if chosen then [layer] else []).foldr f inner = if chosen then f layer inner else inner := by
  cases chosen <;> rfl

section Trees

variable (stage : Stage) (context : Context)

mutual

theorem element_own (element : Element)
    (apart : element.Throughout (RepeatsApart context.annotations)) :
    TranslatorYields stage (showsRoot context.annotations element = false)
      (elementMeaning context element) := by
  match element with
  | ⟨head, children, branches⟩ =>
    obtain ⟨⟨repeatable, silent, binds⟩, below⟩ := Element.throughout_iff.mp apart
    have inside := nodes_own children fun child held => below.children child held
    have beside := blocks_own branches fun branch held => below.branches branch held
    -- From the inside out: the core, the choice among the branches, the loop, the fragment.
    have core : TranslatorYields stage
        (showsRootInside context.annotations ⟨head, children, branches⟩ = false)
        (coreMeaning context.settings head children (nodeMeanings context children)) := by
      refine core_own inside fun none transparent => ?_
      rw [showsRootInside, Bool.or_eq_false_iff] at none
      simpa [transparent] using none.1
    have chosen : TranslatorYields stage
        (showsRootInside context.annotations ⟨head, children, branches⟩ = false)
        (if head.condition.isSome then Layer.choose.meaning context head (branchMeanings context branches)
          (coreMeaning context.settings head children (nodeMeanings context children))
        else coreMeaning context.settings head children (nodeMeanings context children)) := by
      split
      · exact choose_own core fun branch held =>
          (beside branch held).mono fun none => (Bool.or_eq_false_iff.mp none).2
      · exact core
    rw [elementMeaning, layers]
    dsimp only at repeatable silent binds
    simp only [repeatable, Bool.false_eq_true, if_false, List.foldr_append, foldr_layer]
    generalize (if head.condition.isSome then _ else _ : Translator) = inner at chosen ⊢
    have repeated : TranslatorYields stage
        (showsRootInside context.annotations ⟨head, children, branches⟩ = false)
        (if head.loop.isSome then
          Layer.loop.meaning context head (branchMeanings context branches) inner else inner) := by
      split
      · exact loop_own chosen silent binds
      · exact chosen
    rw [showsRoot_eq]
    split
    · next isRoot =>
      refine (hoist_own repeated).mono fun none => ?_
      rw [isRoot] at none
      cases none
    · exact repeated.mono fun none => (Bool.or_eq_false_iff.mp none).2

theorem nodes_own (nodes : List Node)
    (apart : ∀ child, .element child ∈ nodes → child.Throughout (RepeatsApart context.annotations)) :
    ∀ translator ∈ nodeMeanings context nodes,
      TranslatorYields stage (nodesShowRoot context.annotations nodes = false) translator := by
  match nodes with
  | [] => exact fun _ held => by cases held
  | .element element :: rest =>
    have here := element_own element (apart element List.mem_cons_self)
    have later := nodes_own rest fun child held => apart child (List.mem_cons_of_mem _ held)
    refine List.forall_mem_cons.mpr ⟨here.mono fun none => (Bool.or_eq_false_iff.mp none).1, ?_⟩
    exact fun translator held => (later translator held).mono fun none => (Bool.or_eq_false_iff.mp none).2
  | .text run :: rest =>
    have later := nodes_own rest fun child held => apart child (List.mem_cons_of_mem _ held)
    exact List.forall_mem_cons.mpr ⟨fun _ => .pure fun _ => .leaf (.inl rfl) _, later⟩
  | .comment comment :: rest =>
    have later := nodes_own rest fun child held => apart child (List.mem_cons_of_mem _ held)
    exact List.forall_mem_cons.mpr ⟨fun _ => .pure fun _ => .leaf (.inr rfl) _, later⟩

theorem blocks_own (branches : List Branch)
    (apart : ∀ branch ∈ branches, branch.block.Throughout (RepeatsApart context.annotations)) :
    ∀ branch ∈ branchMeanings context branches,
      TranslatorYields stage (branchesShowRoot context.annotations branches = false) branch.2 := by
  match branches with
  | [] => exact fun _ held => by cases held
  | ⟨condition, block⟩ :: rest =>
    obtain ⟨first, others⟩ := List.forall_mem_cons.mp apart
    have here := element_own block first
    have later := blocks_own rest others
    refine List.forall_mem_cons.mpr ⟨here.mono fun none => (Bool.or_eq_false_iff.mp none).1, ?_⟩
    exact fun branch held => (later branch held).mono fun none => (Bool.or_eq_false_iff.mp none).2

end

end Trees

/-- The program of a document shows own keys, and so do its fragments. -/
theorem document_own (stage : Stage) (context : Context) (document : Document)
    (apart : ∀ root ∈ document.root, root.Throughout (RepeatsApart context.annotations)) :
    TranslatesOwn stage (YieldsOwn stage False) (documentMeaning context document) := by
  unfold documentMeaning
  split
  · exact .pure fun _ => .element _ fun _ held => by cases held
  · next root given =>
    split
    · exact .pure fun _ => .literal _
    · exact ((element_own stage context root (apart root given)).mono False.elim) []

/-! ## Renders -/

section Renders

variable {stage : Stage} {kept : Kept} {depth : Nat}

/-- Fragments that show own keys of earlier ones supply their own keys, one
after another. -/
theorem supplies_of_kept (keeps : KeepsOwn stage kept) (few : kept.fragments.length ≤ Number.twoTo 53)
    (builds : ∀ index fragment, stage.built index = .ok fragment → ∃ source datum,
      kept.fragments[index]? = some source ∧ (stage.run depth [] source []).1 = .ok datum ∧
        Fragment.ofDatum index datum = .ok fragment) :
    ∀ index < kept.fragments.length, stage.Supplies index := by
  intro index
  induction index using Nat.strong_induction_on with
  | _ index earlier =>
    intro inside
    refine ⟨inside.trans_le few, fun fragment given => ?_⟩
    obtain ⟨source, datum, found, run, made⟩ := builds index fragment given
    obtain ⟨first, yields⟩ := keeps index source found
    obtain ⟨result, ends, shows⟩ :=
      yields (fun other less => earlier other less (less.trans inside)) depth [] fun _ held => by cases held
    have same : result = .ok datum := (ends [] (.nil _)).1.symm.trans run
    exact showsOwn_fragment (shows datum same).apart made

theorem renderedNode_apart {quiet : Prop} {first last : Nat} {datum : Datum}
    (shows : ShowsOwn quiet first last datum) {node : Tree.Node} (made : renderedNode datum = .ok node) :
    node.SiblingsApart := by
  unfold renderedNode at made
  split at made
  · cases made
    exact shows.apart.1
  · cases made
    exact shows.apart.1
  · split at made <;> cases made
    trivial

end Renders

section Inert

variable {fragments : List Expr} (inert : ∀ source ∈ fragments, IsInert source) (data : Value)
  (depth : Nat)

def Stage.ofInert : Stage where
  environment := ⟨data, fragments, []⟩
  fragment := enterBelow ⟨data, fragments, []⟩ depth fragments.length
  built := inertFragment fragments [] depth
  bare := rfl
  builds := fun _ same => enterBelow_builds inert [] depth data same

theorem builds_ofInert {index : Nat} {kept : Fragment}
    (made : inertFragment fragments [] depth index = .ok kept) : ∃ source datum,
      fragments[index]? = some source ∧
        ((Stage.ofInert inert data depth).run depth [] source []).1 = .ok datum ∧
        Fragment.ofDatum index datum = .ok kept := by
  let stage := Stage.ofInert inert data depth
  have gives := @buildFragment_inert _ inert [] depth data
    ⟨fun _ _ => throw .tooDeep, evaluateCalls stage.environment stage.fragment depth []⟩
    stage.fragment rfl index []
  rw [made, buildFragment] at gives
  dsimp only at gives
  cases found : fragments[index]? with
  | none =>
    rw [found] at gives
    cases gives
  | some source =>
    rw [found] at gives
    dsimp only at gives
    rw [run_bind, ← stage.run_eq] at gives
    generalize run : stage.run depth [] source [] = result at gives
    obtain ⟨ended, after⟩ := result
    cases ended with
    | error halt => cases gives
    | ok datum =>
      refine ⟨source, datum, rfl, congrArg Prod.fst run, ?_⟩
      dsimp only at gives
      cases shaped : Fragment.ofDatum index datum with
      | error fault =>
        rw [shaped] at gives
        cases gives
      | ok fragment =>
        rw [shaped] at gives
        cases gives
        rfl

include inert in
theorem renderWithin_siblingsApart {context : Context} {document : Document}
    (apart : ∀ root ∈ document.root, root.Throughout (RepeatsApart context.annotations))
    (listed : ((documentMeaning context document).run .empty).2.fragments = fragments)
    (few : fragments.length ≤ Number.twoTo 53) {node : Tree.Node}
    (rendered : (renderWithin ⟨data, fragments, []⟩ depth
      ((documentMeaning context document).run .empty).1 []).1 = .ok node) : node.SiblingsApart := by
  let stage := Stage.ofInert inert data depth
  have nothing : KeepsOwn stage .empty := fun _ _ found => by cases found
  obtain ⟨keeps, -, yields⟩ := document_own stage context document apart .empty nothing
  generalize (documentMeaning context document).run .empty = translated at listed rendered keeps yields
  have supplies := supplies_of_kept keeps (listed ▸ few) fun index fragment made => by
    rw [listed]
    exact builds_ofInert inert data depth made
  have made : Makes stage.built Tree.Node.SiblingsApart
      (renderWithin ⟨data, fragments, []⟩ depth translated.1) := by
    have run := yields supplies depth [] fun _ held => by cases held
    rw [stage.run_eq] at run
    rw [renderWithin, evaluateFragments_eq_below]
    exact Makes.bind run fun datum shows => .ofExcept fun node same => renderedNode_apart shows same
  obtain ⟨result, ends, apart⟩ := made
  exact apart node ((ends [] (.nil _)).1.symm.trans rendered)

end Inert

/-! ## Templates -/

def BindsFreely (head : Head) : Prop :=
  ∀ header ∈ head.loop, bindsFreely (targetsMeaning header) = true

instance : DecidablePred BindsFreely := fun head =>
  inferInstanceAs (Decidable (∀ header ∈ head.loop, bindsFreely (targetsMeaning header) = true))

/-- The rule for loops of templates keeps static roots out of all that loops
repeat, where that is fresh.  Where no loop shows a static root, siblings have
different static keys in every render on any data without nodes for outlets, if
the template renders nothing once and its variables hide no helper. -/
theorem compile_siblingsApart {base : Settings} (known : IsBase base) {overlay : Overlay}
    (plain : overlay.isPlain = true) (optimizes : (base.overlaid overlay).optimizes = true)
    (template : String)
    (reads : ReadsAsMeant (base.overlaid overlay) (compile (base.overlaid overlay) template))
    (repeatable : (compile (base.overlaid overlay) template).document.EveryHead IsRepeatable)
    (binds : (compile (base.overlaid overlay) template).document.EveryHead BindsFreely) :
    let compiled := compile (base.overlaid overlay) template
    ((∀ root ∈ compiled.document.root, root.Throughout RepeatsFreshly) →
      ∀ root ∈ compiled.document.root, root.Throughout (RepeatsNoRoot compiled.annotations)) ∧
    ((∀ root ∈ compiled.document.root, root.Throughout (RepeatsNoRoot compiled.annotations)) →
      ∃ handle, ((Compiler.new base).functions overlay template).1 = .ok handle ∧
        (handle.functions.fragments.length ≤ Number.twoTo 53 → ∀ (data : Value) (node : Tree.Node),
          (Instance.fresh handle.functions [] data).render.1 = .ok node → node.SiblingsApart)) := by
  obtain ⟨parsed, annotated, -⟩ := compile_parts (base.overlaid overlay) template
  rw [if_pos optimizes] at annotated
  have formed := parse_formed (base_isFaithful known plain) (trimmed template)
  rw [← parsed] at formed
  refine ⟨fun freshly => ?_, fun silent => ?_⟩
  · have kept := analyze_repeatsNoRoot (base_isFaithful known plain) (base_keepsNumber known plain)
      (trimmed template)
    dsimp only at kept
    rw [← parsed, ← annotated] at kept
    exact kept freshly
  · obtain ⟨handle, made⟩ := @functions_of_ofTemplate (Compiler.new base) overlay template
      (ofTemplate_of_readsAsMeant reads)
    refine ⟨handle, made, fun few data node rendered => ?_⟩
    have functions := ofTemplate_of_new made
    obtain ⟨render, fragments⟩ := bodies_of_readsAsMeant reads functions
    rw [meaning_eq] at render fragments
    dsimp only at render fragments
    have inert : ∀ source ∈ handle.functions.fragments.map SourceFunction.body, IsInert source :=
      List.forall_mem_map.mpr
        (bodies_inert (fragmentFunctions_of_ofTemplate functions)
          (fragments_inert known plain template repeatable))
    have apart : ∀ root ∈ (compile (base.overlaid overlay) template).document.root,
        root.Throughout (RepeatsApart (compile (base.overlaid overlay) template).annotations) := by
      intro root held above element lineage
      have once := throughout_of_everyHead (fun _ raw => raw.isOnce) (formed root held)
        (repeatable root held) above element lineage
      have free := throughout_of_everyHead (fun _ raw => by simp [BindsFreely, raw.loop])
        (formed root held) (binds root held) above element lineage
      exact ⟨once, silent root held above element lineage, free⟩
    have body : (Instance.fresh handle.functions [] data).render.1 =
        (renderWithin ⟨data, handle.functions.fragments.map SourceFunction.body, []⟩
          Instance.standardDepth handle.functions.render.body []).1 := rfl
    rw [body, render] at rendered
    generalize compile (base.overlaid overlay) template = compiled at apart fragments rendered
    exact @renderWithin_siblingsApart _ inert data Instance.standardDepth
      ⟨base.overlaid overlay, compiled.annotations⟩ compiled.document apart fragments.symm
      (by rwa [List.length_map]) _ rendered

/-- Static roots beside the loop of a template. -/
def listedSource : String :=
  "<div><b>s</b><template v-for=\"x in xs\"><i>t</i></template><b>z</b></div>"

theorem listedSource_siblingsApart :
    IsBase Web.settings ∧ Overlay.empty.isPlain = true ∧
      (Web.settings.overlaid .empty).optimizes = true ∧
      ReadsAsMeant (Web.settings.overlaid .empty) (compile (Web.settings.overlaid .empty) listedSource) ∧
      (compile (Web.settings.overlaid .empty) listedSource).document.EveryHead IsRepeatable ∧
      (compile (Web.settings.overlaid .empty) listedSource).document.EveryHead BindsFreely ∧
      (∀ root ∈ (compile (Web.settings.overlaid .empty) listedSource).document.root,
        root.Throughout RepeatsFreshly) ∧
      ∃ handle, ((Compiler.new Web.settings).functions .empty listedSource).1 = .ok handle ∧
        handle.functions.fragments.length = 2 ∧ (∃ node, (Instance.fresh handle.functions []
          (.record [("xs", .list [.null, .null])])).render.1 = .ok node) ∧
        ∀ (data : Value) (node : Tree.Node),
          (Instance.fresh handle.functions [] data).render.1 = .ok node → node.SiblingsApart := by
  have known : IsBase Web.settings := .inl rfl
  have plain : Overlay.empty.isPlain = true := rfl
  have optimizes : (Web.settings.overlaid .empty).optimizes = true := rfl
  obtain ⟨clean, limits, slots, repeatable, binds, freshly⟩ :
      errorsOf (compile (Web.settings.overlaid .empty) listedSource).diagnostics = [] ∧
        (compile (Web.settings.overlaid .empty) listedSource).document.EveryHead WithinLimits ∧
        (compile (Web.settings.overlaid .empty) listedSource).document.EveryHead SlotValuesRead ∧
        (compile (Web.settings.overlaid .empty) listedSource).document.EveryHead IsRepeatable ∧
        (compile (Web.settings.overlaid .empty) listedSource).document.EveryHead BindsFreely ∧
        ∀ root ∈ (compile (Web.settings.overlaid .empty) listedSource).document.root,
          root.Throughout RepeatsFreshly := by decide +kernel
  obtain ⟨counted, shown⟩ :
      ((Functions.ofTemplate (Web.settings.overlaid .empty) listedSource).toOption.map
          fun functions => functions.fragments.length) = some 2 ∧
        (firstRender (Web.settings.overlaid .empty) listedSource
          (.record [("xs", .list [.null, .null])])).isSome = true := by decide +kernel
  have reads := readsAsMeant_of_limits known plain listedSource clean limits slots
  obtain ⟨silent, rendered⟩ :=
    compile_siblingsApart known plain optimizes listedSource reads repeatable binds
  obtain ⟨handle, made, apart⟩ := rendered (silent freshly)
  have few : handle.functions.fragments.length = 2 := by
    rw [ofTemplate_of_new made] at counted
    exact Option.some.inj counted
  obtain ⟨node, first⟩ := Option.isSome_iff_exists.mp shown
  exact ⟨known, plain, optimizes, reads, repeatable, binds, freshly, handle, made, few,
    ⟨node, render_of_firstRender made first⟩, apart (by rw [few]; decide +kernel)⟩

/-- A verbatim element that the loop of a template repeats. -/
def verbatimLoop : String := "<div><template v-for=\"i in 2\"><b v-pre>x</b></template></div>"

theorem verbatimLoop_siblingsMeet :
    let compiled := compile (Web.settings.overlaid .empty) verbatimLoop
    (Web.settings.overlaid .empty).optimizes = true ∧ compiled.document.EveryHead IsRepeatable ∧
      ∃ handle node, ((Compiler.new Web.settings).functions .empty verbatimLoop).1 = .ok handle ∧
        (Instance.fresh handle.functions [] .undefined).render.1 = .ok node ∧ ¬ node.SiblingsApart := by
  intro compiled
  have shown : ((firstRender (Web.settings.overlaid .empty) verbatimLoop .undefined).map fun node =>
      decide node.SiblingsApart) = some false := by decide +kernel
  obtain ⟨node, rendered, meet⟩ := Option.map_eq_some_iff.mp shown
  obtain ⟨handle, made, first⟩ := functions_of_firstRender rendered
  exact ⟨rfl, by decide +kernel, handle, node, made, first, of_decide_eq_false meet⟩

end Templating.Evaluation
