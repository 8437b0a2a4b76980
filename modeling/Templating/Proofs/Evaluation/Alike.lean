import Templating.Proofs.Evaluation.Captured
import Templating.Proofs.Evaluation.Inlined
import Templating.Proofs.Template.Lineage
import Templating.Proofs.Translation.Hoisting
import Templating.Proofs.Translation.Inlining
/-!
# Translations with and without fragments

A translation that hoists is compared with one that does not.  What it makes
simulates what the other makes, in every world that has its fragments.
-/
set_option autoImplicit false

namespace Templating.Evaluation

open Templating.Text Templating.Data Templating.Expression Templating.Template Templating.Rendering

/-! ## Steps of a translation -/

/-- The world has the fragments, at numbers that are exact. -/
structure World.Has (world : World) (fragments : List Expr) : Prop where
  kept : fragments <+: world.fragments
  exact : world.fragments.length ≤ Number.twoTo 53

theorem World.Has.fewer {world : World} {fragments more : List Expr} (has : world.Has more)
    (fewer : fragments <+: more) : world.Has fragments := ⟨fewer.trans has.kept, has.exact⟩

section Steps

variable {α β : Type} {holds : World → α → Prop} {holdsThen : World → β → Prop}

/-- The step drops no fragment, and its result has the property in every world
that has those kept then. -/
def TranslatesAlike (holds : World → α → Prop) (translate : Translation α) : Prop :=
  ∀ kept, kept.fragments <+: (translate.run kept).2.fragments ∧
    ∀ world : World, world.Has (translate.run kept).2.fragments → holds world (translate.run kept).1

theorem TranslatesAlike.pure {result : α} (given : ∀ world, holds world result) :
    TranslatesAlike holds (return result) :=
  fun kept => ⟨List.prefix_refl kept.fragments, fun world _ => given world⟩

theorem TranslatesAlike.bind {translate : Translation α} {next : α → Translation β}
    (one : TranslatesAlike holds translate)
    (two : ∀ result, TranslatesAlike (fun world value => holds world result → holdsThen world value)
      (next result)) : TranslatesAlike holdsThen (translate >>= next) := by
  intro kept
  obtain ⟨first, given⟩ := one kept
  obtain ⟨second, makes⟩ := two (translate.run kept).1 (translate.run kept).2
  exact ⟨first.trans second, fun world has => makes world has (given world (has.fewer second))⟩

theorem TranslatesAlike.map {translate : Translation α} {change : α → β}
    (one : TranslatesAlike holds translate)
    (given : ∀ world result, holds world result → holdsThen world (change result)) :
    TranslatesAlike holdsThen (translate >>= fun result => return change result) :=
  one.bind fun result => .pure fun world held => given world result held

end Steps

/-- The second translator keeps nothing, and what the first one makes at the
place simulates what it makes. -/
def TranslatorsAlike (place : Place) (translator plain : Translator) : Prop :=
  ∀ loops, ∃ source, plain loops = pure source ∧
    TranslatesAlike (fun world hoisted => Simulates world place hoisted source) (translator loops)

/-! ## Elements -/

section Elements

variable {place : Place}

theorem parts_alike {translators plains : List Translator}
    (each : List.Forall₂ (TranslatorsAlike place) translators plains) (loops : List (Option String)) :
    ∃ sources, plains.mapM (fun plain => plain loops) = (pure sources : Translation _) ∧
      TranslatesAlike (fun world parts => List.Forall₂ (Simulates world place) parts sources)
        (translators.mapM fun translator => translator loops) := by
  induction each with
  | nil => exact ⟨[], rfl, .pure fun _ => .nil⟩
  | cons first rest ih =>
    obtain ⟨source, same, alike⟩ := first loops
    obtain ⟨sources, others, behind⟩ := ih
    refine ⟨source :: sources, ?_, ?_⟩
    · rw [List.mapM_cons, same, pure_bind, others, pure_bind]
    · rw [List.mapM_cons]
      exact alike.bind fun part => behind.map fun world parts later here => .cons here later

def childrenArgument (children : List Node) : List Expr → Option Expr
  | [] => none
  | [part] => some (if isLoneLoop children then part else .list [part])
  | parts => some (.list parts)

theorem childrenMeaning_eq (children : List Node) (translators : List Translator)
    (loops : List (Option String)) :
    childrenMeaning children translators loops =
      (translators.mapM fun translator => translator loops) >>= fun parts =>
        return childrenArgument children parts := by
  unfold childrenMeaning
  congr 1
  funext parts
  rcases parts with _ | ⟨part, _ | ⟨second, others⟩⟩ <;> rfl

theorem childrenArgument_simulates {world : World} (children : List Node) {parts sources : List Expr}
    (same : List.Forall₂ (Simulates world place) parts sources) :
    Option.Rel (Simulates world place) (childrenArgument children parts)
      (childrenArgument children sources) := by
  cases same with
  | nil => exact .none
  | cons first rest =>
    cases rest with
    | nil =>
      simp only [childrenArgument]
      split
      · exact .some first
      · exact .some (.list (.cons first .nil))
    | cons second others => exact .some (.list (.cons first (.cons second others)))

theorem children_alike (children : List Node) {translators plains : List Translator}
    (each : List.Forall₂ (TranslatorsAlike place) translators plains) (loops : List (Option String)) :
    ∃ inner, childrenMeaning children plains loops = pure inner ∧
      TranslatesAlike (fun world hoisted => Option.Rel (Simulates world place) hoisted inner)
        (childrenMeaning children translators loops) := by
  obtain ⟨sources, same, alike⟩ := parts_alike each loops
  refine ⟨childrenArgument children sources, by rw [childrenMeaning_eq, same, pure_bind], ?_⟩
  rw [childrenMeaning_eq]
  exact alike.map fun world parts given => childrenArgument_simulates children given

structure AllowsHead (place : Place) (settings : Settings) (head : Head) : Prop where
  data : ∀ inLoop, place.Allows (dataObject settings inLoop head)
  component : ∀ code ∈ head.component, place.Allows (captured code)
  outletName : ∀ code ∈ head.outletName, place.Allows (captured code)
  outletProps : place.Allows (attributesMeaning (outletProps head))
  spread : ∀ code ∈ head.spread, place.Allows (captured code)

theorem TameHead.allows {head : Head} (tame : TameHead head) (settings : Settings) :
    AllowsHead .inside settings head where
  data := tame.dataObject settings
  component := tame.component
  outletName := tame.outletName
  outletProps := tame.outletProps
  spread := tame.spread

theorem IsStill.allows {head : Head} (still : IsStill head) (settings : Settings) :
    AllowsHead .fixed settings head where
  data inLoop := by
    rw [dataObject, still.spread, still.dataMeaning_inLoop]
    exact still.data_isConstant settings
  component _ held := by simp [still.component] at held
  outletName _ held := by simp [still.outletName] at held
  outletProps := by
    refine attributesMeaning_isConstant fun item held => ?_
    obtain ⟨given, inside, rfl⟩ := List.mem_map.mp held
    exact still.attributes given inside
  spread _ held := by simp [still.spread] at held

section Core

variable {settings : Settings} {head : Head} (allows : AllowsHead place settings head)

include allows

theorem AllowsHead.outlet {world : World} {inner plain : Option Expr}
    (same : Option.Rel (Simulates world place) inner plain) :
    Simulates world place (outletMeaning head inner) (outletMeaning head plain) := by
  have named : place.Allows ((head.outletName.map captured).getD (textExpr "default")) := by
    cases given : head.outletName with
    | none => exact place.allows_literal _
    | some code => exact allows.outletName code given
  have further : ∀ item ∈ (if !(Rendering.outletProps head).isEmpty then
        [attributesMeaning (Rendering.outletProps head)]
      else if head.spread.isSome then [.literal .null] else []) ++ head.spread.toList.map captured,
      place.Allows item := by
    refine List.forall_mem_append.mpr ⟨?_, List.forall_mem_map.mpr fun code held =>
      allows.spread code (Option.mem_toList.mp held)⟩
    split
    · exact List.forall_mem_singleton.mpr allows.outletProps
    · split
      · exact List.forall_mem_singleton.mpr (place.allows_literal _)
      · exact fun _ none => by cases none
  unfold outletMeaning
  cases same with
  | some simulates => exact .outlet named simulates further
  | none =>
    dsimp only
    by_cases given : (!(Rendering.outletProps head).isEmpty || head.spread.isSome) = true
    · rw [if_pos given]
      exact .emptyOutlet named (.inr ⟨_, rfl⟩)
        (List.forall_mem_cons.mpr ⟨place.allows_literal _, further⟩)
    · have spread : head.spread = none := by
        rw [Bool.not_eq_true, Bool.or_eq_false_iff] at given
        simpa using given.2
      rw [if_neg given]
      refine .emptyOutlet named (.inl ?_) further
      rw [Bool.not_eq_true, Bool.or_eq_false_iff] at given
      simp [given.1, spread]

theorem core_alike {children : List Node} {translators plains : List Translator}
    (each : List.Forall₂ (TranslatorsAlike place) translators plains) :
    TranslatorsAlike place (coreMeaning settings head children translators)
      (coreMeaning settings head children plains) := by
  intro loops
  obtain ⟨inner, same, alike⟩ := children_alike children each loops
  unfold coreMeaning
  rw [same]
  simp only [pure_bind]
  by_cases transparent : (head.tag == "template" && head.slotTarget.isNone && !head.isVerbatim) = true
  · simp only [if_pos transparent]
    refine ⟨_, rfl, alike.map fun world hoisted given => ?_⟩
    cases given with
    | none => exact .captured (place.allows_literal _)
    | some simulates => exact simulates
  · simp only [if_neg transparent]
    by_cases outlet : (head.tag == "slot") = true
    · simp only [if_pos outlet]
      exact ⟨_, rfl, alike.map fun world hoisted given => allows.outlet given⟩
    · simp only [if_neg outlet]
      refine ⟨_, rfl, alike.map fun world hoisted given => ?_⟩
      have inside : List.Forall₂ (Simulates world place) hoisted.toList inner.toList := by
        cases given with
        | none => exact .nil
        | some simulates => exact .cons simulates .nil
      have literal (value : Value) : Simulates world place (.literal value) (.literal value) :=
        .captured (place.allows_literal value)
      have data : Simulates world place (dataObject settings (!loops.isEmpty) head)
          (dataObject settings (!loops.isEmpty) head) := .captured (allows.data _)
      split
      · next component named =>
        exact .element (.cons (.captured (allows.component component named)) (.cons data inside))
      · split
        · exact .element (.cons (literal _) (.cons data inside))
        · exact .element (.cons (literal _) inside)

end Core

end Elements

/-! ## Layers -/

section Layers

variable (context other : Context) {head : Head} {branches plains : List (Option String × Translator)}

/-- The same condition, and what it chooses simulates. -/
structure BranchesAlike (branch plain : Option String × Translator) : Prop where
  condition : branch.1 = plain.1
  tame : ∀ code ∈ branch.1, isTame (captured code) = true
  block : TranslatorsAlike .inside branch.2 plain.2

theorem chain_alike (each : List.Forall₂ BranchesAlike branches plains) (loops : List (Option String)) :
    ∃ source, branchesMeaning loops plains = pure source ∧
      TranslatesAlike (fun world hoisted => Simulates world .inside hoisted source)
        (branchesMeaning loops branches) := by
  induction each with
  | nil => exact ⟨_, rfl, .pure fun _ => .leaf (.inr rfl) fun _ none => by cases none⟩
  | @cons branch plain rest others first _ ih =>
    obtain ⟨condition, translator⟩ := branch
    obtain ⟨_, plainTranslator⟩ := plain
    obtain ⟨rfl, tame, block⟩ := first
    obtain ⟨source, same, alike⟩ := block loops
    obtain ⟨behind, sameThen, alikeThen⟩ := ih
    dsimp only at same alike
    cases condition with
    | none => exact ⟨source, same, alike⟩
    | some condition =>
      have test : Place.inside.Allows (captured condition) := tame condition rfl
      refine ⟨.conditional (captured condition) source behind, ?_, ?_⟩
      · rw [branchesMeaning, same, pure_bind, sameThen, pure_bind]
      · rw [branchesMeaning]
        exact alike.bind fun block => alikeThen.map fun world others later here =>
          .conditional test here later

theorem choose_alike {inner plain : Translator} (here : TranslatorsAlike .inside inner plain)
    (tame : ∀ code ∈ head.condition, isTame (captured code) = true)
    (each : List.Forall₂ BranchesAlike branches plains) :
    TranslatorsAlike .inside (Layer.choose.meaning context head branches inner)
      (Layer.choose.meaning other head plains plain) := by
  intro loops
  obtain ⟨source, same, alike⟩ := here loops
  obtain ⟨behind, sameThen, alikeThen⟩ := chain_alike each loops
  have test : Place.inside.Allows (captured (head.condition.getD "true")) := by
    cases given : head.condition with
    | none => exact (by decide +kernel : isTame (captured "true") = true)
    | some code => exact tame code given
  refine ⟨.conditional (captured (head.condition.getD "true")) source behind, ?_, ?_⟩
  · simp only [Layer.meaning]
    rw [same, pure_bind, sameThen, pure_bind]
  · exact alike.bind fun block => alikeThen.map fun world others later inside =>
      .conditional test inside later

theorem loop_alike (branches plains : List (Option String × Translator))
    {inner plain : Translator} (here : TranslatorsAlike .inside inner plain)
    (tame : ∀ header ∈ head.loop, isTame (captured header.source) = true)
    (binds : ∀ header ∈ head.loop, bindsFreely (targetsMeaning header) = true) :
    TranslatorsAlike .inside (Layer.loop.meaning context head branches inner)
      (Layer.loop.meaning other head plains plain) := by
  intro loops
  simp only [Layer.meaning]
  split
  · next header given =>
    obtain ⟨source, same, alike⟩ := here (head.key :: loops)
    refine ⟨_, by rw [same, pure_bind], alike.map fun world body simulates => ?_⟩
    exact .loop (tame header given) (binds header given) simulates
  · exact here loops

theorem layers_alike (tame : TameHead head)
    (binds : ∀ header ∈ head.loop, bindsFreely (targetsMeaning header) = true)
    (each : List.Forall₂ BranchesAlike branches plains) {core plainCore : Translator}
    (here : TranslatorsAlike .inside core plainCore) {around : List Layer}
    (known : ∀ layer ∈ around, layer = .loop ∨ layer = .choose) :
    TranslatorsAlike .inside
      (around.foldr (fun layer inner => layer.meaning context head branches inner) core)
      (around.foldr (fun layer inner => layer.meaning other head plains inner) plainCore) := by
  induction around with
  | nil => exact here
  | cons layer rest ih =>
    have inner := ih fun given held => known given (List.mem_cons_of_mem layer held)
    rcases known layer List.mem_cons_self with rfl | rfl
    · exact loop_alike context other branches plains inner tame.source binds
    · exact choose_alike context other inner tame.condition each

theorem hoist_alike (branches : List (Option String × Translator)) {inner : Translator} {meaning : Expr}
    (translates : TranslatesTo inner meaning)
    (simulates : ∀ world : World, world.Has [] → Simulates world .fixed meaning meaning)
    (there : ∀ world : World, world.Makes Datum.IsThere meaning) {plain : Translator}
    (same : TranslatesTo plain meaning) :
    TranslatorsAlike .inside (Layer.hoist.meaning context head branches inner) plain := by
  intro loops
  refine ⟨meaning, same loops, fun kept => ?_⟩
  have run : (Layer.hoist.meaning context head branches inner loops).run kept =
      (fragmentCall kept.fragments.length (context.annotations.get head.id).isInLoop,
        { kept with fragments := kept.fragments ++ [meaning] }) := by
    simp only [Layer.meaning, translates loops, pure_bind]
    rfl
  rw [run]
  refine ⟨List.prefix_append _ _, fun world has => ?_⟩
  obtain ⟨more, listed⟩ := has.kept
  have found : world.fragments[kept.fragments.length]? = some meaning := by
    rw [← listed]
    simp
  have exact : kept.fragments.length < Number.twoTo 53 :=
    (List.getElem?_eq_some_iff.mp found).1.trans_le has.exact
  exact .fragment found exact (simulates world (has.fewer List.nil_prefix)) (there world) _

end Layers

/-! ## Still trees -/

section Still

variable (settings : Settings)

mutual

theorem still_alike (element : Element) (still : StillElement element) :
    TranslatorsAlike .fixed (elementMeaning ⟨settings, .empty⟩ element)
      (elementMeaning ⟨settings, .empty⟩ element) := by
  match element, still with
  | ⟨head, children, branches⟩, ⟨stillHead, _, stillChildren⟩ =>
    rw [elementMeaning, stillHead.layers rfl]
    exact core_alike (IsStill.allows stillHead settings) (stillNodes_alike children stillChildren)

theorem stillNodes_alike (nodes : List Node) (still : StillNodes nodes) :
    List.Forall₂ (TranslatorsAlike .fixed) (nodeMeanings ⟨settings, .empty⟩ nodes)
      (nodeMeanings ⟨settings, .empty⟩ nodes) := by
  match nodes, still with
  | [], _ => exact .nil
  | .element element :: rest, ⟨first, others⟩ =>
    exact .cons (still_alike element first) (stillNodes_alike rest others)
  | .text run :: rest, ⟨plain, others⟩ =>
    refine .cons (fun loops => ⟨_, rfl, .pure fun world => ?_⟩) (stillNodes_alike rest others)
    rw [StillNode] at plain
    refine .leaf (.inl rfl) (List.forall_mem_singleton.mpr ?_)
    rw [plain]
    exact Place.allows_literal .fixed _
  | .comment comment :: rest, ⟨_, others⟩ =>
    refine .cons (fun loops => ⟨_, rfl, .pure fun world => ?_⟩) (stillNodes_alike rest others)
    exact .leaf (.inr rfl) (List.forall_mem_singleton.mpr (Place.allows_literal .fixed _))

end

end Still

/-! ## What fragments hold -/

theorem pure_injective {α : Type} {first second : α} (same : (pure first : Translation α) = pure second) :
    first = second := congrArg (fun step : Translation α => (step.run .empty).1) same

theorem still_simulates (settings : Settings) {head : Head} {children : List Node}
    (still : IsStill head) (stillChildren : StillNodes children) {meaning : Expr}
    (translates : TranslatesTo (coreMeaning settings head children
      (nodeMeanings ⟨settings, .empty⟩ children)) meaning) (world : World) (has : world.Has []) :
    Simulates world .fixed meaning meaning := by
  obtain ⟨source, same, alike⟩ := @core_alike .fixed settings head (IsStill.allows still settings) children
    _ _ (stillNodes_alike settings children stillChildren) []
  obtain rfl : meaning = source := pure_injective ((translates []).symm.trans same)
  have run := (alike .empty).2 world
  rw [translates] at run
  exact run has

theorem childrenArgument_makes (world : World) {children : List Node} (single : isLoneLoop children = false)
    {sources : List Expr} {inner : Expr} (made : childrenArgument children sources = some inner) :
    world.Makes Datum.IsThere inner := by
  rcases sources with _ | ⟨part, _ | ⟨second, others⟩⟩
  · cases made
  · simp only [childrenArgument, single, Bool.false_eq_true, if_false] at made
    cases made
    exact .list _
  · cases made
    exact .list _

theorem still_isLoneLoop {nodes : List Node} (still : StillNodes nodes) : isLoneLoop nodes = false := by
  match nodes, still with
  | [], _ => rfl
  | [.element ⟨head, children, branches⟩], ⟨⟨stillHead, _, _⟩, _⟩ => simp [isLoneLoop, stillHead.loop]
  | [.text _], _ => rfl
  | [.comment _], _ => rfl
  | first :: _ :: _, _ => cases first <;> rfl

theorem still_makes (settings : Settings) {head : Head} {children : List Node}
    (still : IsStill head) (stillChildren : StillNodes children) (nonempty : children ≠ []) {meaning : Expr}
    (translates : TranslatesTo (coreMeaning settings head children
      (nodeMeanings ⟨settings, .empty⟩ children)) meaning) (world : World) :
    world.Makes Datum.IsThere meaning := by
  obtain ⟨sources, -, each⟩ := still_nodes settings children stillChildren
  have same := each .empty (nodesUnhoisted_empty children)
  obtain ⟨inner, made⟩ : ∃ inner, childrenArgument children sources = some inner := by
    cases sources with
    | nil =>
      cases children with
      | nil => exact absurd rfl nonempty
      | cons node rest => cases same
    | cons part rest => cases rest <;> exact ⟨_, rfl⟩
  have there := childrenArgument_makes world (still_isLoneLoop stillChildren) made
  have run := translates []
  unfold coreMeaning at run
  rw [childrenMeaning_eq, mapM_eq_pure [] (same.imp fun _ _ given => given []), pure_bind, made] at run
  simp only [pure_bind, still.component] at run
  split at run
  · rw [← pure_injective run]
    exact there
  · split at run
    · rw [← pure_injective run]
      exact .outlet _ there _
    · rw [← pure_injective run]
      exact (World.Makes.element _).mono fun _ single => single.isThere

/-! ## Trees -/

/-- How an element must be for its translation with fragments to be alike. -/
structure HoistsAlike (annotations : Annotations) (element : Element) : Prop where
  repeatable : element.head.isOnce = false
  tame : CapturesTame element
  filled : (annotations.get element.head.id).isRoot = true → element.children ≠ []

section Trees

variable (settings : Settings) {annotations : Annotations}

mutual

theorem element_alike (element : Element)
    (alike : element.Throughout (HoistsAlike annotations)) (still : FragmentsStill annotations element) :
    TranslatorsAlike .inside (elementMeaning ⟨settings, annotations⟩ element)
      (elementMeaning ⟨settings, .empty⟩ element) := by
  match element, still with
  | ⟨head, children, branches⟩, ⟨hoists, below, beside⟩ =>
    obtain ⟨⟨repeatable, tame, filled⟩, inside⟩ := Element.throughout_iff.mp alike
    dsimp only at repeatable filled
    have own : TameHead head := tameHead_of_splices fun code held =>
      tame.codes code (List.mem_append_left _ (List.mem_append_left _ held))
    have texts : ∀ code ∈ children.flatMap nodeSplices, isTame (captured code) = true :=
      fun code held => tame.codes code (List.mem_append_left _ (List.mem_append_right _ held))
    have conditions : ∀ branch ∈ branches, ∀ code ∈ branch.condition, isTame (captured code) = true :=
      fun branch held code given => tame.codes code (List.mem_append_right _
        (List.mem_flatMap.mpr ⟨branch, held, Option.mem_toList.mpr given⟩))
    have core := @core_alike .inside settings head (own.allows settings) children _ _
      (nodes_alike children inside.children texts below)
    have blocks := branches_alike branches inside.branches conditions beside
    rw [elementMeaning, elementMeaning]
    cases isRoot : (annotations.get head.id).isRoot with
    | true =>
      have hoisted : .hoist ∈ layers (annotations.get head.id) head := by simp [layers, isRoot]
      obtain ⟨stillHead, -, stillChildren, unhoisted⟩ := hoists hoisted
      obtain ⟨meaning, -, translates⟩ := still_core settings stillHead children stillChildren
      rw [stillHead.layers_root isRoot, stillHead.layers rfl]
      have plain := translates .empty (nodesUnhoisted_empty children)
      exact hoist_alike ⟨settings, annotations⟩ (branchMeanings ⟨settings, annotations⟩ branches)
        (translates annotations unhoisted)
        (still_simulates settings stillHead stillChildren plain)
        (still_makes settings stillHead stillChildren (filled isRoot) plain) plain
    | false =>
      rw [layers_plain isRoot repeatable, @layers_plain (Annotations.empty.get head.id) head rfl repeatable]
      exact layers_alike _ _ own tame.targets blocks core fun layer held => layers_cases repeatable held

theorem nodes_alike (nodes : List Node)
    (alike : ∀ child, .element child ∈ nodes → child.Throughout (HoistsAlike annotations))
    (tame : ∀ code ∈ nodes.flatMap nodeSplices, isTame (captured code) = true)
    (still : NodesFragmentsStill annotations nodes) :
    List.Forall₂ (TranslatorsAlike .inside) (nodeMeanings ⟨settings, annotations⟩ nodes)
      (nodeMeanings ⟨settings, .empty⟩ nodes) := by
  match nodes with
  | [] => exact .nil
  | .element element :: rest =>
    exact .cons (element_alike element (alike element List.mem_cons_self) still.1)
      (nodes_alike rest (fun child held => alike child (List.mem_cons_of_mem _ held)) tame still.2)
  | .text run :: rest =>
    rw [List.flatMap_cons, List.forall_mem_append] at tame
    refine .cons (fun loops => ⟨_, rfl, .pure fun world => .captured (run_tame tame.1)⟩) ?_
    exact nodes_alike rest (fun child held => alike child (List.mem_cons_of_mem _ held)) tame.2 still
  | .comment comment :: rest =>
    refine .cons (fun loops => ⟨_, rfl, .pure fun world => .captured ?_⟩) ?_
    · exact helperCall_tame (by decide) (List.forall_mem_singleton.mpr rfl)
    · exact nodes_alike rest (fun child held => alike child (List.mem_cons_of_mem _ held)) tame still

theorem branches_alike (branches : List Branch)
    (alike : ∀ branch ∈ branches, branch.block.Throughout (HoistsAlike annotations))
    (tame : ∀ branch ∈ branches, ∀ code ∈ branch.condition, isTame (captured code) = true)
    (still : BranchesFragmentsStill annotations branches) :
    List.Forall₂ BranchesAlike (branchMeanings ⟨settings, annotations⟩ branches)
      (branchMeanings ⟨settings, .empty⟩ branches) := by
  match branches with
  | [] => exact .nil
  | ⟨condition, block⟩ :: rest =>
    obtain ⟨here, later⟩ := List.forall_mem_cons.mp alike
    obtain ⟨tameHere, tameLater⟩ := List.forall_mem_cons.mp tame
    exact .cons ⟨rfl, tameHere, element_alike block here still.1⟩
      (branches_alike rest later tameLater still.2)

end

end Trees

end Templating.Evaluation
