import Templating.Proofs.Evaluation.Alike
import Templating.Proofs.Evaluation.Mirror
import Templating.Proofs.Template.Marking
import Templating.Proofs.Template.Roots
import Templating.Proofs.Translation.Switch
/-!
# The analysis does not change renders

What is hoisted is rendered as it is without the analysis, but for the marks of
what comes from fragments.
-/
set_option autoImplicit false

namespace Templating.Evaluation

open Templating.Text Templating.Data Templating.Expression Templating.Template Templating.Rendering

/-! ## Sole roots -/

/-- Whatever is kept before, what the step makes ends only in nodes. -/
def TranslatesNode (world : World) (translate : Translation Expr) : Prop :=
  ∀ kept, world.Makes Datum.IsNode (translate.run kept).1

theorem TranslatesNode.bind {α : Type} {world : World} (translate : Translation α)
    {next : α → Translation Expr} (behind : ∀ result, TranslatesNode world (next result)) :
    TranslatesNode world (translate >>= next) :=
  fun kept => behind (translate.run kept).1 (translate.run kept).2

def TranslatorMakesNode (world : World) (translator : Translator) : Prop :=
  ∀ loops, TranslatesNode world (translator loops)

section Roots

variable (world : World) (settings : Settings)

theorem core_node {head : Head} (single : head.IsSingle) (children : List Node)
    (translators : List Translator) :
    TranslatorMakesNode world (coreMeaning settings head children translators) := by
  refine fun loops => .bind _ fun inner => ?_
  have solid : (head.tag == "template" && head.slotTarget.isNone && !head.isVerbatim) = false := by
    simp [single.solid]
  have noOutlet : (head.tag == "slot") = false := beq_eq_false_iff_ne.mpr single.noOutlet
  simp only [solid, noOutlet, Bool.false_eq_true, if_false]
  exact fun kept => .element _

theorem chain_node {branches : List (Option String × Translator)}
    (each : ∀ branch ∈ branches, TranslatorMakesNode world branch.2) (loops : List (Option String)) :
    TranslatesNode world (branchesMeaning loops branches) := by
  induction branches with
  | nil => exact fun kept => .comment []
  | cons branch rest ih =>
    obtain ⟨here, later⟩ := List.forall_mem_cons.mp each
    obtain ⟨condition, translator⟩ := branch
    cases condition with
    | none => exact here loops
    | some condition =>
      exact fun kept => .conditional _ (here loops kept) (ih later ((translator loops).run kept).2)

theorem single_node {head : Head} (single : head.IsSingle) (repeatable : head.isOnce = false)
    (children : List Node) (branches : List Branch)
    (blocks : ∀ branch ∈ branchMeanings ⟨settings, .empty⟩ branches, TranslatorMakesNode world branch.2) :
    TranslatorMakesNode world (elementMeaning ⟨settings, .empty⟩ ⟨head, children, branches⟩) := by
  have layered (around : List Layer) (known : ∀ layer ∈ around, layer = .loop ∨ layer = .choose) :
      TranslatorMakesNode world (around.foldr (fun layer inner => layer.meaning ⟨settings, .empty⟩ head
        (branchMeanings ⟨settings, .empty⟩ branches) inner)
        (coreMeaning settings head children (nodeMeanings ⟨settings, .empty⟩ children))) := by
    induction around with
    | nil => exact core_node world settings single children _
    | cons layer rest ih =>
      have inner := ih fun given held => known given (List.mem_cons_of_mem layer held)
      rcases known layer List.mem_cons_self with rfl | rfl
      · simpa only [List.foldr_cons, Layer.meaning, single.unrepeated] using inner
      · exact fun loops kept => .conditional _ (inner loops kept) (chain_node world blocks loops _)
  rw [elementMeaning, @layers_plain (Annotations.empty.get head.id) head rfl repeatable]
  exact layered _ fun layer held => layers_cases repeatable held

theorem soleRoot_node {root : Element} (sole : root.IsSoleRoot)
    (repeatable : root.Throughout fun element => element.head.isOnce = false) :
    TranslatorMakesNode world (elementMeaning ⟨settings, .empty⟩ root) := by
  obtain ⟨head, children, branches⟩ := root
  obtain ⟨own, below⟩ := Element.throughout_iff.mp repeatable
  refine single_node world settings sole.own own children branches ?_
  have blocks := sole.blocks
  have once := below.branches
  dsimp only at blocks once
  clear repeatable own below sole
  induction branches with
  | nil => exact fun _ held => by cases held
  | cons branch rest ih =>
    obtain ⟨condition, ⟨blockHead, inside, more⟩⟩ := branch
    obtain ⟨⟨single, unbranched⟩, others⟩ := List.forall_mem_cons.mp blocks
    obtain ⟨here, later⟩ := List.forall_mem_cons.mp once
    refine List.forall_mem_cons.mpr ⟨?_, ih others later⟩
    obtain rfl : more = [] := unbranched
    exact single_node world settings single (Element.throughout_iff.mp here).1 inside []
      fun _ held => by cases held

end Roots

/-! ## Documents -/

def Datum.IsUnlisted : Datum → Prop
  | .list _ => False
  | _ => True

theorem Datum.IsNode.isUnlisted {datum : Datum} (single : datum.IsNode) : datum.IsUnlisted := by
  cases datum <;> trivial

section Documents

variable (settings : Settings) {annotations : Annotations} {document : Document}

theorem document_unlisted (world : World) (sole : ∀ root ∈ document.root, root.IsSoleRoot)
    (repeatable : ∀ root ∈ document.root, root.Throughout fun element => element.head.isOnce = false) :
    world.Makes Datum.IsUnlisted ((documentMeaning ⟨settings, .empty⟩ document).run .empty).1 := by
  unfold documentMeaning
  split
  · exact (World.Makes.element _).mono fun _ => Datum.IsNode.isUnlisted
  · next root given =>
    split
    · intro depth scope _
      rw [World.inlined, evaluateCalls_entrance]
      have shown : ∀ enter, evaluate world.inlining enter scope (.literal .null) =
          pure (.plain .null) := fun _ => by simp only [evaluate]
      exact (shown _).symm ▸ .pure trivial
    · exact (soleRoot_node world settings (sole root given) (repeatable root given) [] .empty).mono
        fun _ => Datum.IsNode.isUnlisted

/-- The program with fragments simulates the one without. -/
theorem document_alike (alike : ∀ root ∈ document.root, root.Throughout (HoistsAlike annotations))
    (still : ∀ root ∈ document.root, FragmentsStill annotations root) :
    ∃ source, documentMeaning ⟨settings, .empty⟩ document = pure source ∧
      TranslatesAlike (fun world hoisted => Simulates world .inside hoisted source)
        (documentMeaning ⟨settings, annotations⟩ document) := by
  have literal (world : World) (value : Value) :
      Simulates world .inside (.literal value) (.literal value) :=
    .captured (Place.allows_literal .inside value)
  unfold documentMeaning
  split
  · exact ⟨_, rfl, .pure fun world => .element (.cons (literal world _) .nil)⟩
  · next root given =>
    split
    · exact ⟨_, rfl, .pure fun world => literal world _⟩
    · exact element_alike settings root (alike root given) (still root given) []

end Documents

/-! ## Renders -/

theorem Follows.only {α β : Type} {world : World} {related : α → β → Prop} {holds : β → Prop}
    {step : Eval α} {other : Eval β} (follows : Follows world related step other)
    (only : OnlyGives holds other) :
    Follows world (fun value given => related value given ∧ holds given) step other := by
  obtain ⟨final, gives, ends⟩ := follows
  refine ⟨final, gives, ends.imp id fun ends cache good => ?_⟩
  obtain ⟨same, still⟩ := ends cache good
  refine ⟨?_, still⟩
  have run := congrArg Prod.fst (gives [])
  generalize (step cache).1 = result at same
  cases same with
  | ok content => exact .ok ⟨content, only [] _ run⟩
  | fault fault => exact .fault fault

theorem renderedNode_alike {world : World} {datum other : Datum} (same : SameContent datum other)
    (unlisted : other.IsUnlisted) :
    Follows world Tree.Node.Marks (Eval.ofExcept (renderedNode datum))
      (Eval.ofExcept (renderedNode other)) := by
  cases same with
  | node marks => exact .pure marks
  | list all => cases unlisted
  | same =>
    cases shown : renderedNode datum with
    | ok node => exact .pure (.refl node)
    | error fault => exact .fail fault

/-- Renders of programs that simulate each other show the same, but for marks. -/
theorem renderWithin_alike (world : World) {program plain : Expr}
    (simulates : Simulates world .inside program plain) (unlisted : world.Makes Datum.IsUnlisted plain) :
    Follows world Tree.Node.Marks (renderWithin world.hoisting world.depth program)
      (renderWithin world.inlining world.depth plain) := by
  have free : Place.inside.Admits [] [] := ⟨rfl, .nil⟩
  have run := (simulates world.depth (Nat.le_refl _) [] [] free).only (unlisted world.depth [] .nil)
  have hoisted : evaluateFragments world.hoisting world.depth world.hoisting.fragments.length program =
      world.hoisted world.depth [] program := evaluateFragments_eq_below _ _ _ _
  have inlined : evaluateFragments world.inlining world.depth world.inlining.fragments.length plain =
      world.inlined world.depth [] plain := rfl
  rw [renderWithin, renderWithin, hoisted, inlined]
  exact run.bind fun datum other given => renderedNode_alike given.1 given.2

theorem document_rendersAlike (settings : Settings) {annotations : Annotations} {document : Document}
    (alike : ∀ root ∈ document.root, root.Throughout (HoistsAlike annotations))
    (still : ∀ root ∈ document.root, FragmentsStill annotations root)
    (sole : ∀ root ∈ document.root, root.IsSoleRoot) (world : World)
    (listed : ((documentMeaning ⟨settings, annotations⟩ document).run .empty).2.fragments =
      world.fragments) (few : world.fragments.length ≤ Number.twoTo 53) :
    Follows world Tree.Node.Marks
      (renderWithin world.hoisting world.depth
        ((documentMeaning ⟨settings, annotations⟩ document).run .empty).1)
      (renderWithin world.inlining world.depth
        ((documentMeaning ⟨settings, .empty⟩ document).run .empty).1) := by
  obtain ⟨source, same, translates⟩ := document_alike settings alike still
  have unlisted := document_unlisted settings world sole fun root held above element lineage =>
    (alike root held above element lineage).repeatable
  rw [same] at unlisted ⊢
  have has : world.Has ((documentMeaning ⟨settings, annotations⟩ document).run .empty).2.fragments :=
    ⟨listed ▸ List.prefix_refl _, few⟩
  exact renderWithin_alike world ((translates .empty).2 world has) unlisted

/-! ## Templates -/

structure Functions.Mean (functions : Functions) (context : Context) (document : Document) : Prop where
  render : functions.render.body = ((documentMeaning context document).run .empty).1
  fragments : functions.fragments.map SourceFunction.body =
    ((documentMeaning context document).run .empty).2.fragments

/-- Functions with fragments render the same as functions without, but for marks. -/
theorem instances_alike {settings : Settings} {annotations : Annotations} {document : Document}
    (alike : ∀ root ∈ document.root, root.Throughout (HoistsAlike annotations))
    (still : ∀ root ∈ document.root, FragmentsStill annotations root)
    (sole : ∀ root ∈ document.root, root.IsSoleRoot) {optimized direct : Functions}
    (inert : optimized.HaveInertFragments)
    (hoists : optimized.Mean ⟨settings, annotations⟩ document)
    (inlines : direct.Mean ⟨settings, .empty⟩ document)
    (few : optimized.fragments.length ≤ Number.twoTo 53) (slots : Dictionary (List Tree.Node))
    (data : Value) :
    (Instance.fresh direct slots data).render.1 = .error .tooDeep ∨
      Ends Tree.Node.Marks (Instance.fresh optimized slots data).render.1
        (Instance.fresh direct slots data).render.1 := by
  let world : World := ⟨data, slots, Instance.standardDepth,
    optimized.fragments.map SourceFunction.body, List.forall_mem_map.mpr inert⟩
  obtain ⟨final, gives, ends⟩ := document_rendersAlike settings alike still sole world
    hoists.fragments.symm (by rwa [List.length_map])
  have hoisting : (Instance.fresh optimized slots data).render.1 =
      (renderWithin world.hoisting world.depth optimized.render.body []).1 := rfl
  have inlining : (Instance.fresh direct slots data).render.1 =
      (renderWithin ⟨data, direct.fragments.map SourceFunction.body, slots⟩ world.depth
        direct.render.body []).1 := rfl
  obtain ⟨source, same, -⟩ := document_alike settings alike still
  have unhoisted : direct.fragments.map SourceFunction.body = [] := by
    rw [inlines.fragments, same]
    rfl
  rw [unhoisted] at inlining
  rw [hoisting, inlining, hoists.render, inlines.render]
  have run : renderWithin ⟨data, [], slots⟩ world.depth
      ((documentMeaning ⟨settings, .empty⟩ document).run .empty).1 [] = (final, []) := gives []
  rw [run]
  exact ends.imp id fun ends => (ends [] (.nil _)).1

theorem overlaid_switched (base : Settings) (overlay : Overlay) (optimizes : Bool) :
    base.overlaid { overlay with optimizes := some optimizes } =
      (base.overlaid overlay).switched optimizes := rfl

theorem compile_switched (settings : Settings) (optimizes : Bool) (template : String) :
    (compile (settings.switched optimizes) template).document = (compile settings template).document := by
  rw [(compile_parts _ template).1, (compile_parts settings template).1, parse_switched]

theorem unmarked_switched (settings : Settings) (template : String) :
    (compile (settings.switched false) template).annotations = .empty := by
  have off : ¬(settings.switched false).optimizes = true := Bool.false_ne_true
  rw [(compile_parts _ template).2.1, if_neg off]

theorem mean_switched {settings : Settings} {optimizes : Bool} {template : String}
    (reads : ReadsAsMeant (settings.switched optimizes) (compile (settings.switched optimizes) template))
    {functions : Functions}
    (made : Functions.ofTemplate (settings.switched optimizes) template = .ok functions) :
    functions.Mean ⟨settings, (compile (settings.switched optimizes) template).annotations⟩
      (compile settings template).document := by
  obtain ⟨render, fragments⟩ := bodies_of_readsAsMeant reads made
  rw [meaning_eq, documentMeaning_switched, compile_switched] at render fragments
  generalize (compile (settings.switched optimizes) template).annotations = annotations
    at render fragments ⊢
  generalize (compile settings template).document = document at render fragments ⊢
  exact ⟨render, fragments⟩

theorem analyze_filled {settings : Settings} (faithful : settings.IsFaithful)
    (keeps : ∀ extension ∈ settings.extensions, extension.KeepsNumber) (source : String) :
    let document := (Document.parse settings source).1
    ∀ root ∈ document.root, root.Throughout fun element =>
      ((document.analyze settings).get element.head.id).isRoot = true → element.children ≠ [] := by
  intro document root held above element lineage isRoot
  have settled := parse_settled faithful source root held
  exact ((lineage.isRoot_iff settled (analyze_holds keeps source root held)).mp isRoot).2.1

section Templates

variable {base : Settings} (known : IsBase base) {overlay : Overlay} (plain : overlay.isPlain = true)
  (template : String)

include known plain

theorem compile_hoistsAlike
    (repeatable : (compile (base.overlaid overlay) template).document.EveryHead IsRepeatable)
    (tame : ∀ root ∈ (compile (base.overlaid overlay) template).document.root,
      root.Throughout CapturesTame) :
    ∀ root ∈ (compile (base.overlaid overlay) template).document.root,
      root.Throughout (HoistsAlike (compile (base.overlaid overlay) template).annotations) := by
  obtain ⟨parsed, annotated, -⟩ := compile_parts (base.overlaid overlay) template
  have faithful := base_isFaithful known plain
  have formed := parse_formed faithful (trimmed template)
  have filled := analyze_filled faithful (base_keepsNumber known plain) (trimmed template)
  dsimp only at filled
  rw [← parsed] at formed filled
  intro root held above element lineage
  refine ⟨?_, tame root held above element lineage, fun isRoot => ?_⟩
  · exact throughout_of_everyHead (fun _ raw => raw.isOnce) (formed root held) (repeatable root held)
      above element lineage
  · rw [annotated] at isRoot
    split at isRoot
    · exact filled root held above element lineage isRoot
    · cases isRoot

theorem functions_switched (optimizes : Bool)
    (reads : ReadsAsMeant (base.overlaid overlay) (compile (base.overlaid overlay) template)) :
    let switched := { overlay with optimizes := some optimizes }
    ∃ handle, ((Compiler.new base).functions switched template).1 = .ok handle ∧
      Functions.ofTemplate (base.overlaid switched) template = .ok handle.functions ∧
      handle.functions.Mean ⟨base.overlaid overlay, (compile (base.overlaid switched) template).annotations⟩
        (compile (base.overlaid overlay) template).document := by
  intro switched
  have standard : StandardSettings (base.overlaid switched) := @base_standard base known switched plain
  have settings : base.overlaid switched = (base.overlaid overlay).switched optimizes :=
    overlaid_switched base overlay optimizes
  have meant : ReadsAsMeant (base.overlaid switched) (compile (base.overlaid switched) template) := by
    refine readsAsMeant_of_sound standard ?_
    rw [settings, compile_switched]
    exact reads.captured
  obtain ⟨handle, made⟩ := @functions_of_ofTemplate (Compiler.new base) switched template
    (ofTemplate_of_readsAsMeant meant)
  have functions := ofTemplate_of_new made
  refine ⟨handle, made, functions, ?_⟩
  rw [settings] at meant functions ⊢
  exact mean_switched meant functions

/-- A clean template that renders nothing once, calls no fragment, and binds no
name of a helper renders the same with the analysis and without, but for the
marks of static nodes: for all data and all nodes for outlets both end with the
same fault or the same tree, unless functions nest too deeply. -/
theorem compile_rendersAlike
    (clean : errorsOf (compile (base.overlaid overlay) template).diagnostics = [])
    (reads : ReadsAsMeant (base.overlaid overlay) (compile (base.overlaid overlay) template))
    (repeatable : (compile (base.overlaid overlay) template).document.EveryHead IsRepeatable)
    (tame : ∀ root ∈ (compile (base.overlaid overlay) template).document.root,
      root.Throughout CapturesTame) :
    let functions := fun optimizes =>
      ((Compiler.new base).functions { overlay with optimizes := some optimizes } template).1
    ∃ optimized direct, functions true = .ok optimized ∧ functions false = .ok direct ∧
      (optimized.functions.fragments.length ≤ Number.twoTo 53 →
        ∀ (slots : Dictionary (List Tree.Node)) (data : Value),
          (Instance.fresh direct.functions slots data).render.1 = .error .tooDeep ∨
            Ends Tree.Node.Marks (Instance.fresh optimized.functions slots data).render.1
              (Instance.fresh direct.functions slots data).render.1) := by
  intro functions
  let switched : Overlay := { overlay with optimizes := some true }
  obtain ⟨optimized, made, given, hoists⟩ := functions_switched known plain template true reads
  obtain ⟨direct, madeToo, -, inlines⟩ := functions_switched known plain template false reads
  refine ⟨optimized, direct, made, madeToo, ?_⟩
  obtain ⟨parsed, -⟩ := compile_parts (base.overlaid overlay) template
  have sole := parse_isSoleRoot known (List.isEmpty_iff.mp (Bool.and_eq_true_iff.mp plain).1)
    (trimmed template) (reading_of_clean clean)
  rw [← parsed] at sole
  have same : (compile (base.overlaid switched) template).document =
      (compile (base.overlaid overlay) template).document := by
    rw [overlaid_switched, compile_switched]
  rw [overlaid_switched, unmarked_switched] at inlines
  rw [← same] at repeatable tame sole hoists inlines
  have alike := @compile_hoistsAlike base known switched plain template repeatable tame
  have still := @compile_fragmentsStill base known switched plain template repeatable
  have inert := bodies_inert (fragmentFunctions_of_ofTemplate given)
    (@fragments_inert base known switched plain template repeatable)
  generalize compile (base.overlaid switched) template = compiled at alike still sole hoists inlines
  exact instances_alike alike still sole inert hoists inlines

end Templates

/-- Static roots below a condition, in a loop, in an outlet and in a branch. -/
def hoistedSource : String :=
  "<div v-if=\"a\"><p>s</p><ul><li v-for=\"x in xs\" :key=\"x\"><b>t</b>\x7b\x7b x \x7d\x7d</li></ul>" ++
    "<slot><i>u</i></slot></div><p v-else>v</p>"

theorem hoistedSource_rendersAlike :
    let settings := Web.settings.overlaid .empty
    let compiled := compile settings hoistedSource
    let functions := fun optimizes =>
      ((Compiler.new Web.settings).functions { Overlay.empty with optimizes := some optimizes }
        hoistedSource).1
    IsBase Web.settings ∧ Overlay.empty.isPlain = true ∧ errorsOf compiled.diagnostics = [] ∧
      ReadsAsMeant settings compiled ∧ compiled.document.EveryHead IsRepeatable ∧
      (∀ root ∈ compiled.document.root, root.Throughout CapturesTame) ∧
      ∃ optimized direct, functions true = .ok optimized ∧ functions false = .ok direct ∧
        optimized.functions.fragments.length = 4 ∧
        ∀ (slots : Dictionary (List Tree.Node)) (data : Value),
          (Instance.fresh direct.functions slots data).render.1 = .error .tooDeep ∨
            Ends Tree.Node.Marks (Instance.fresh optimized.functions slots data).render.1
              (Instance.fresh direct.functions slots data).render.1 := by
  have known : IsBase Web.settings := .inl rfl
  have plain : Overlay.empty.isPlain = true := rfl
  obtain ⟨clean, limits, slotValues, repeatable, tame⟩ :
      errorsOf (compile (Web.settings.overlaid .empty) hoistedSource).diagnostics = [] ∧
        (compile (Web.settings.overlaid .empty) hoistedSource).document.EveryHead WithinLimits ∧
        (compile (Web.settings.overlaid .empty) hoistedSource).document.EveryHead SlotValuesRead ∧
        (compile (Web.settings.overlaid .empty) hoistedSource).document.EveryHead IsRepeatable ∧
        ∀ root ∈ (compile (Web.settings.overlaid .empty) hoistedSource).document.root,
          root.Throughout CapturesTame := by decide +kernel
  have counted : ((Functions.ofTemplate (Web.settings.overlaid { Overlay.empty with optimizes := some true })
      hoistedSource).toOption.map fun functions => functions.fragments.length) = some 4 := by
    decide +kernel
  have reads := readsAsMeant_of_limits known plain hoistedSource clean limits slotValues
  obtain ⟨optimized, direct, made, madeToo, alike⟩ :=
    compile_rendersAlike known plain hoistedSource clean reads repeatable tame
  have few : optimized.functions.fragments.length = 4 := by
    rw [ofTemplate_of_new made] at counted
    exact Option.some.inj counted
  exact ⟨known, plain, clean, reads, repeatable, tame, optimized, direct, made, madeToo, few,
    alike (by rw [few]; decide +kernel)⟩

end Templating.Evaluation
