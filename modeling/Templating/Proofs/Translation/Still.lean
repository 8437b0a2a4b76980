import Templating.Proofs.Template.Numbering
import Templating.Proofs.Translation.Alone
import Templating.Proofs.Translation.Trees
/-!
# Still parts of a template

An element is still when neither it nor anything below it holds source.  Its
translation keeps nothing and does not depend on what is around it, and is an
inert expression: texts and calls that make nodes and outlets of them.
-/
set_option autoImplicit false

namespace Templating.Rendering

open Templating.Text Templating.Data Templating.Template Templating.Expression

/-! ## Inert expressions -/

/-- The helpers that make nodes of texts, and outlets. -/
def makers : List String := ["_c", "_v", "_e", "_t"]

mutual

/-- The expression is made of literals by `makers`.  It mentions no data and no
fragment, and its functions have no parameters. -/
def IsInert : Expr → Prop
  | .literal _ => True
  | .call callee arguments => (∃ name ∈ makers, callee = .name name) ∧ AllInert arguments
  | .list items => AllInert items
  | .record entries => EntriesInert entries
  | .function parameters body => parameters = [] ∧ IsInert body
  | _ => False

def AllInert : List Expr → Prop
  | [] => True
  | item :: rest => IsInert item ∧ AllInert rest

def EntriesInert : List (Key × Expr) → Prop
  | [] => True
  | (key, value) :: rest => (∃ name, key = .fixed name) ∧ IsInert value ∧ EntriesInert rest

end

theorem allInert_iff (items : List Expr) : AllInert items ↔ ∀ item ∈ items, IsInert item := by
  induction items with
  | nil => simp [AllInert]
  | cons item rest ih => simp [AllInert, ih]

mutual

/-- The expression is a literal, or an object of constants under fixed names. -/
def IsConstant : Expr → Prop
  | .literal _ => True
  | .record entries => EntriesConstant entries
  | _ => False

def EntriesConstant : List (Key × Expr) → Prop
  | [] => True
  | (key, value) :: rest => (∃ name, key = .fixed name) ∧ IsConstant value ∧ EntriesConstant rest

end

theorem entriesConstant_iff (entries : List (Key × Expr)) :
    EntriesConstant entries ↔
      ∀ entry ∈ entries, (∃ name, entry.1 = .fixed name) ∧ IsConstant entry.2 := by
  induction entries with
  | nil => simp [EntriesConstant]
  | cons entry rest ih =>
    obtain ⟨key, value⟩ := entry
    simp [EntriesConstant, ih, and_assoc]

mutual

theorem IsConstant.isInert (source : Expr) (constant : IsConstant source) : IsInert source := by
  match source, constant with
  | .literal _, _ => trivial
  | .record entries, constant => exact EntriesConstant.isInert entries constant

theorem EntriesConstant.isInert (entries : List (Key × Expr)) (constant : EntriesConstant entries) :
    EntriesInert entries := by
  match entries, constant with
  | [], _ => trivial
  | (_, value) :: rest, ⟨fixed, first, others⟩ =>
    exact ⟨fixed, IsConstant.isInert value first, EntriesConstant.isInert rest others⟩

end

theorem textExpr_isInert (content : String) : IsInert (textExpr content) := trivial

theorem helperCall_isInert {name : String} (made : name ∈ makers) {arguments : List Expr}
    (inert : ∀ item ∈ arguments, IsInert item) : IsInert (helperCall name arguments) :=
  ⟨⟨name, made, rfl⟩, (allInert_iff arguments).mpr inert⟩

/-! ## Still trees -/

/-- The head holds no source but what extensions make of texts. -/
structure IsStill (head : Head) : Prop where
  attributes : ∀ item ∈ head.attributes, item.isDynamic = false
  props : head.props = []
  listeners : head.listeners = []
  nativeListeners : head.nativeListeners = []
  directives : head.directives = []
  key : head.key = none
  ref : head.ref = none
  condition : head.condition = none
  loop : head.loop = none
  isOnce : head.isOnce = false
  component : head.component = none
  outletName : head.outletName = none
  slotTarget : head.slotTarget = none
  spread : head.spread = none
  extensions : ∀ entry ∈ head.extensions, readsAlone entry.2 = true ∧ IsConstant (captured entry.2)

mutual

def StillElement : Element → Prop
  | ⟨head, children, _⟩ => IsStill head ∧ Markup.IsTagName head.tag ∧ StillNodes children

def StillNode : Node → Prop
  | .element element => StillElement element
  | .text run => run.segments = []
  | .comment _ => True

def StillNodes : List Node → Prop
  | [] => True
  | node :: rest => StillNode node ∧ StillNodes rest

end

mutual

def Unhoisted (annotations : Annotations) : Element → Prop
  | ⟨head, children, _⟩ =>
    (annotations.get head.id).isRoot = false ∧ NodesUnhoisted annotations children

def NodeUnhoisted (annotations : Annotations) : Node → Prop
  | .element element => Unhoisted annotations element
  | _ => True

def NodesUnhoisted (annotations : Annotations) : List Node → Prop
  | [] => True
  | node :: rest => NodeUnhoisted annotations node ∧ NodesUnhoisted annotations rest

end

mutual

theorem unhoisted_empty (element : Element) : Unhoisted .empty element := by
  match element with
  | ⟨_, children, _⟩ => exact ⟨rfl, nodesUnhoisted_empty children⟩

theorem nodesUnhoisted_empty (nodes : List Node) : NodesUnhoisted .empty nodes := by
  match nodes with
  | [] => trivial
  | .element element :: rest => exact ⟨unhoisted_empty element, nodesUnhoisted_empty rest⟩
  | .text _ :: rest => exact ⟨trivial, nodesUnhoisted_empty rest⟩
  | .comment _ :: rest => exact ⟨trivial, nodesUnhoisted_empty rest⟩

end

/-! ## Still heads -/

theorem IsRaw.isStill {head : Head} (raw : IsRaw head) : IsStill head where
  attributes := raw.attributes
  props := raw.props
  listeners := raw.listeners
  nativeListeners := raw.nativeListeners
  directives := raw.directives
  key := raw.key
  ref := raw.ref
  condition := raw.condition
  loop := raw.loop
  isOnce := raw.isOnce
  component := raw.component
  outletName := raw.outletName
  slotTarget := raw.slotTarget
  spread := raw.spread
  extensions _ held := by simp [raw.extensions] at held

mutual

theorem stillElement_of_raw (element : Element) (raw : RawElement element) : StillElement element := by
  match element, raw with
  | ⟨_, children, _⟩, ⟨rawHead, named, rawChildren, _⟩ =>
    exact ⟨IsRaw.isStill rawHead, named, stillNodes_of_raw children rawChildren⟩

theorem stillNodes_of_raw (nodes : List Node) (raw : RawNodes nodes) : StillNodes nodes := by
  match nodes, raw with
  | [], _ => trivial
  | .element element :: rest, ⟨first, others⟩ =>
    exact ⟨stillElement_of_raw element first, stillNodes_of_raw rest others⟩
  | .text _ :: rest, ⟨first, others⟩ => exact ⟨first, stillNodes_of_raw rest others⟩
  | .comment _ :: rest, ⟨_, others⟩ => exact ⟨trivial, stillNodes_of_raw rest others⟩

end

section Still

variable {head : Head} (still : IsStill head)

include still

theorem IsStill.soundHead (named : Markup.IsTagName head.tag) : SoundHead head where
  tag := named.unquoted
  directives _ held := by simp [still.directives] at held
  key _ held := by simp [still.key] at held
  ref _ held := by simp [still.ref] at held
  extensions entry held := (still.extensions entry held).1
  attributes item held := by
    have plain := still.attributes item held
    simp only [Attribute.isDynamic, Bool.or_eq_false_iff] at plain
    simp [SoundAttribute, attributeSplices, plain]
  props _ held := by simp [still.props] at held
  listeners _ held := by simp [still.listeners, listenerGroups] at held
  nativeListeners _ held := by simp [still.nativeListeners, listenerGroups] at held
  slotTarget _ held := by simp [still.slotTarget] at held
  spread _ held := by simp [still.spread] at held
  component _ held := by simp [still.component] at held
  outletName _ held := by simp [still.outletName] at held
  condition _ held := by simp [still.condition] at held
  source _ held := by simp [still.loop] at held
  targets _ held := by simp [still.loop] at held

omit still in
theorem attributesMeaning_isConstant {items : List Attribute}
    (plain : ∀ item ∈ items, item.isDynamic = false) : IsConstant (attributesMeaning items) := by
  refine (entriesConstant_iff _).mpr fun entry held => ?_
  obtain ⟨item, given, rfl⟩ := List.mem_map.mp held
  have literal := plain item given
  simp only [Attribute.isDynamic, Bool.or_eq_false_iff] at literal
  refine ⟨⟨item.name, by simp [attributeMeaning, keyMeaning, literal]⟩, ?_⟩
  simp only [attributeMeaning, literal, Bool.false_eq_true, if_false]
  trivial

theorem IsStill.dataMeaning_inLoop (settings : Settings) (inLoop : Bool) :
    dataMeaning settings inLoop head = dataMeaning settings false head := by
  simp [dataMeaning, still.ref]

theorem IsStill.data_isConstant (settings : Settings) :
    EntriesConstant (dataMeaning settings false head) := by
  have fixed {name : String} {value : Expr} (constant : IsConstant value) :
      (∃ other, (namedField name value).1 = .fixed other) ∧ IsConstant (namedField name value).2 :=
    ⟨⟨name, rfl⟩, constant⟩
  rw [entriesConstant_iff]
  intro entry held
  simp only [dataMeaning, keptDirectives, propsMeaning, still.directives, still.key, still.ref,
    still.component, still.props, still.listeners, still.nativeListeners, still.slotTarget,
    unlessEmpty, optionalMeaning, List.filter_nil, List.isEmpty_nil, List.map_nil, List.flatMap_nil,
    List.append_nil, List.nil_append, Option.toList_none, Option.isSome_none, if_true,
    Bool.false_eq_true, if_false, List.mem_append] at held
  rcases held with (held | held) | held
  · split at held
    · obtain rfl := List.mem_singleton.mp held
      exact fixed trivial
    · cases held
  · rw [extensionsMeaning, List.mem_flatMap] at held
    obtain ⟨name, -, held⟩ := held
    simp only [List.mem_map, Option.mem_toList] at held
    obtain ⟨code, found, rfl⟩ := held
    exact fixed (still.extensions (name, code) (find?_mem found)).2
  · split at held
    · cases held
    · obtain rfl := List.mem_singleton.mp held
      exact fixed (attributesMeaning_isConstant still.attributes)

theorem IsStill.layers {flags : Flags} (unhoisted : flags.isRoot = false) : layers flags head = [] := by
  simp [Rendering.layers, unhoisted, still.condition, still.loop, still.isOnce]

theorem IsStill.layers_root {flags : Flags} (hoisted : flags.isRoot = true) :
    Rendering.layers flags head = [.hoist] := by
  simp [Rendering.layers, hoisted, still.condition, still.loop, still.isOnce]

end Still

/-! ## Translation of still trees -/

/-- The translator keeps nothing, and gives the expression whatever is around. -/
def TranslatesTo (translate : Translator) (meaning : Expr) : Prop :=
  ∀ loops, translate loops = pure meaning

theorem mapM_eq_pure {monad : Type → Type} [Monad monad] [LawfulMonad monad] {α β : Type}
    {actions : List (α → monad β)} {results : List β} (input : α)
    (same : List.Forall₂ (fun action result => action input = pure result) actions results) :
    actions.mapM (fun action => action input) = pure results := by
  induction same with
  | nil => rfl
  | cons first others ih => rw [List.mapM_cons, first, pure_bind, ih, pure_bind]

theorem childrenMeaning_eq_pure (children : List Node) {meanings : List Expr}
    (inert : ∀ item ∈ meanings, IsInert item) :
    ∃ inner : Option Expr, (∀ item ∈ inner, IsInert item) ∧
      ∀ translators, List.Forall₂ TranslatesTo translators meanings →
        ∀ loops, childrenMeaning children translators loops = pure inner := by
  have run {translators : List Translator} (same : List.Forall₂ TranslatesTo translators meanings)
      (loops : List (Option String)) :
      translators.mapM (fun translator => translator loops) = (pure meanings : Translation _) :=
    mapM_eq_pure loops (same.imp fun _ _ translates => translates loops)
  rcases meanings with _ | ⟨part, _ | ⟨second, others⟩⟩
  · refine ⟨none, fun item held => (by cases held), fun translators same loops => ?_⟩
    rw [childrenMeaning, run same, pure_bind]
  · refine ⟨some (if isLoneLoop children then part else .list [part]), ?_,
      fun translators same loops => ?_⟩
    · rintro _ ⟨⟩
      split
      · exact inert part List.mem_cons_self
      · exact (allInert_iff _).mpr inert
    · rw [childrenMeaning, run same, pure_bind]
  · refine ⟨some (.list (part :: second :: others)), ?_, fun translators same loops => ?_⟩
    · rintro _ ⟨⟩
      exact (allInert_iff _).mpr inert
    · rw [childrenMeaning, run same, pure_bind]

section Core

variable {settings : Settings} {head : Head} (still : IsStill head)

include still

theorem IsStill.outletMeaning_isInert {inner : Option Expr} (inert : ∀ item ∈ inner, IsInert item) :
    IsInert (outletMeaning head inner) := by
  refine helperCall_isInert (by decide) fun item held => ?_
  have given : IsInert (attributesMeaning (outletProps head)) := by
    refine IsConstant.isInert _ (attributesMeaning_isConstant fun prop found => ?_)
    obtain ⟨given, inside, rfl⟩ := List.mem_map.mp found
    exact still.attributes given inside
  simp only [still.outletName, still.spread, Option.map_none, Option.getD_none, Option.isSome_none,
    Bool.or_false, Bool.false_eq_true, if_false, Option.toList_none, List.map_nil, List.append_nil,
    List.cons_append, List.mem_cons, List.mem_append] at held
  rcases held with rfl | held | held
  · exact textExpr_isInert "default"
  · split at held
    · next body =>
      obtain rfl := List.mem_singleton.mp held
      exact ⟨rfl, inert body rfl⟩
    · split at held
      · obtain rfl := List.mem_singleton.mp held
        trivial
      · cases held
  · split at held
    · obtain rfl := List.mem_singleton.mp held
      exact given
    · cases held

theorem IsStill.coreMeaning {inner : Option Expr} (inert : ∀ item ∈ inner, IsInert item) :
    ∃ meaning, IsInert meaning ∧ ∀ children translators,
      (∀ loops, childrenMeaning children translators loops = pure inner) →
      TranslatesTo (coreMeaning settings head children translators) meaning := by
  have data (loops : List (Option String)) :
      dataObject settings (!loops.isEmpty) head = .record (dataMeaning settings false head) := by
    rw [dataObject, still.spread, still.dataMeaning_inLoop]
  have needs (loops : List (Option String)) :
      needsData settings (!loops.isEmpty) head = needsData settings false head := by
    rw [needsData, still.dataMeaning_inLoop, needsData]
  by_cases transparent : (head.tag == "template" && head.slotTarget.isNone && !head.isVerbatim) = true
  · refine ⟨inner.getD (.literal .undefined), ?_, fun children translators same loops => ?_⟩
    · cases inner with
      | none => trivial
      | some meaning => exact inert meaning rfl
    · rw [Rendering.coreMeaning, same, pure_bind, if_pos transparent]
  · by_cases outlet : (head.tag == "slot") = true
    · refine ⟨outletMeaning head inner, still.outletMeaning_isInert inert,
        fun children translators same loops => ?_⟩
      rw [Rendering.coreMeaning, same, pure_bind, if_neg transparent, if_pos outlet]
    · refine ⟨helperCall "_c" ((if needsData settings false head then
        [textExpr head.tag, .record (dataMeaning settings false head)] else [textExpr head.tag]) ++
          inner.toList), ?_, fun children translators same loops => ?_⟩
      · refine helperCall_isInert (by decide) fun item held => ?_
        rcases List.mem_append.mp held with held | held
        · split at held
          · simp only [List.mem_cons, List.not_mem_nil, or_false] at held
            rcases held with rfl | rfl
            · exact textExpr_isInert head.tag
            · exact EntriesConstant.isInert _ (still.data_isConstant settings)
          · obtain rfl := List.mem_singleton.mp held
            exact textExpr_isInert head.tag
        · exact inert item (Option.mem_toList.mp held)
      · rw [Rendering.coreMeaning, same, pure_bind, if_neg transparent, if_neg outlet]
        simp only [still.component, data, needs]

end Core

mutual

/-- A still element means one inert expression wherever nothing in it is a
fragment. -/
theorem still_meaning (settings : Settings) (element : Element) (still : StillElement element) :
    ∃ meaning, IsInert meaning ∧ ∀ annotations, Unhoisted annotations element →
      TranslatesTo (elementMeaning ⟨settings, annotations⟩ element) meaning := by
  match element, still with
  | ⟨head, children, branches⟩, ⟨stillHead, _, stillChildren⟩ =>
    obtain ⟨meaning, inert, core⟩ := still_core settings stillHead children stillChildren
    refine ⟨meaning, inert, fun annotations unhoisted loops => ?_⟩
    rw [elementMeaning, stillHead.layers unhoisted.1]
    exact core annotations unhoisted.2 loops

theorem still_core (settings : Settings) {head : Head} (stillHead : IsStill head)
    (children : List Node) (still : StillNodes children) :
    ∃ meaning, IsInert meaning ∧ ∀ annotations, NodesUnhoisted annotations children →
      TranslatesTo (coreMeaning settings head children
        (nodeMeanings ⟨settings, annotations⟩ children)) meaning := by
  obtain ⟨meanings, inert, same⟩ := still_nodes settings children still
  obtain ⟨inner, innerInert, run⟩ := childrenMeaning_eq_pure children inert
  obtain ⟨meaning, meaningInert, core⟩ := @IsStill.coreMeaning settings _ stillHead _ innerInert
  exact ⟨meaning, meaningInert, fun annotations unhoisted =>
    core children _ (run _ (same annotations unhoisted))⟩

theorem still_nodes (settings : Settings) (nodes : List Node) (still : StillNodes nodes) :
    ∃ meanings : List Expr, (∀ item ∈ meanings, IsInert item) ∧
      ∀ annotations, NodesUnhoisted annotations nodes →
        List.Forall₂ TranslatesTo (nodeMeanings ⟨settings, annotations⟩ nodes) meanings := by
  have join {node : Node} {rest : List Node} {meaning : Expr} {meanings : List Expr}
      (inert : IsInert meaning) (others : ∀ item ∈ meanings, IsInert item)
      (same : ∀ annotations, NodeUnhoisted annotations node →
        TranslatesTo (nodeMeaning ⟨settings, annotations⟩ node) meaning)
      (sameRest : ∀ annotations, NodesUnhoisted annotations rest →
        List.Forall₂ TranslatesTo (nodeMeanings ⟨settings, annotations⟩ rest) meanings) :
      ∃ meanings : List Expr, (∀ item ∈ meanings, IsInert item) ∧
        ∀ annotations, NodesUnhoisted annotations (node :: rest) →
          List.Forall₂ TranslatesTo (nodeMeanings ⟨settings, annotations⟩ (node :: rest)) meanings :=
    ⟨meaning :: meanings, List.forall_mem_cons.mpr ⟨inert, others⟩, fun annotations unhoisted =>
      .cons (same annotations unhoisted.1) (sameRest annotations unhoisted.2)⟩
  match nodes, still with
  | [], _ => exact ⟨[], fun _ held => (by cases held), fun _ _ => .nil⟩
  | node :: rest, ⟨stillNode, stillRest⟩ =>
    obtain ⟨meanings, others, sameRest⟩ := still_nodes settings rest stillRest
    match node, stillNode with
    | .element element, stillElement =>
      obtain ⟨meaning, inert, same⟩ := still_meaning settings element stillElement
      exact join inert others same sameRest
    | .text run, plain =>
      have inert : IsInert (runMeaning run) := by
        refine helperCall_isInert (by decide) fun item held => ?_
        obtain rfl := List.mem_singleton.mp held
        rw [StillNode] at plain
        rw [plain]
        exact textExpr_isInert run.content
      exact join inert others (fun _ _ _ => rfl) sameRest
    | .comment comment, _ =>
      have inert : IsInert (helperCall "_e" [textExpr comment.content]) := by
        refine helperCall_isInert (by decide) fun item held => ?_
        obtain rfl := List.mem_singleton.mp held
        exact textExpr_isInert comment.content
      exact join inert others (fun _ _ _ => rfl) sameRest

end

/-! ## Source of still trees -/

/-- The writer keeps nothing and reports nothing, and writes the code whatever
is around. -/
def WritesOnly (write : Writer) (code : Code) : Prop := ∀ loops, write loops = pure code

theorem report_nil : Gen.report [] = pure () := by
  funext draft
  have unchanged : { draft with diagnostics := draft.diagnostics ++ [] } = draft := by
    rw [List.append_nil]
  exact congrArg (fun after => ((), after)) unchanged

theorem IsStill.dataCode_inLoop {head : Head} (still : IsStill head) (settings : Settings)
    (inLoop : Bool) : dataCode settings inLoop head = dataCode settings false head := by
  simp [dataCode, dataFields, refField, still.ref]

theorem IsStill.writeCore {head : Head} (still : IsStill head) (context : Context)
    {children : List Node} {writers : List Writer} {inner : Option Code}
    (same : ∀ loops, writeChildren children writers loops = pure inner) :
    ∃ code, WritesOnly (writeCore context head children writers) code := by
  have data (loops : List (Option String)) :
      writeData context head loops = pure (dataCode context.settings false head) := by
    rw [writeData, directiveDiagnostics, still.directives, List.flatMap_nil, report_nil, pure_bind,
      still.dataCode_inLoop]
  by_cases transparent : (head.tag == "template" && head.slotTarget.isNone && !head.isVerbatim) = true
  · exact ⟨inner.getD (.ofSource "undefined"), fun loops => by
      rw [Rendering.writeCore, if_pos transparent, same, pure_bind]⟩
  · by_cases outlet : (head.tag == "slot") = true
    · exact ⟨outletCode head inner, fun loops => by
        rw [Rendering.writeCore, if_neg transparent, if_pos outlet, same, pure_bind]⟩
    · let object := dataCode context.settings false head
      let given := if object == "\x7b\x7d" then "" else "," ++ object
      refine ⟨.source ("_c('" ++ head.tag ++ "'" ++ given) :: furtherArgument inner ++ [.source ")"],
        fun loops => ?_⟩
      rw [Rendering.writeCore, if_neg transparent, if_neg outlet, data, pure_bind, same, pure_bind,
        still.component]

theorem writeChildren_eq_pure (children : List Node) {writers : List Writer} {codes : List Code}
    (same : List.Forall₂ WritesOnly writers codes) :
    ∃ inner : Option Code, ∀ loops, writeChildren children writers loops = pure inner := by
  have run (loops : List (Option String)) :
      writers.mapM (fun writer => writer loops) = (pure codes : Gen _) :=
    mapM_eq_pure loops (same.imp fun _ _ writes => writes loops)
  refine ⟨if codes.isEmpty then none else if isLoneLoop children then some codes.flatten
    else some (.source "[" :: Code.commaSeparated codes ++ [.source "]"]), fun loops => ?_⟩
  rw [writeChildren, run, pure_bind]
  split
  · rfl
  · split <;> rfl

mutual

theorem still_writes {context : Context} (element : Element) (still : StillElement element)
    (unhoisted : Unhoisted context.annotations element) :
    ∃ code, WritesOnly (writeElement context element) code := by
  match element, still, unhoisted with
  | ⟨head, children, branches⟩, ⟨stillHead, _, stillChildren⟩, ⟨unmarked, below⟩ =>
    obtain ⟨codes, same⟩ := stillNodes_write children stillChildren below
    obtain ⟨inner, run⟩ := writeChildren_eq_pure children same
    rw [writeElement, stillHead.layers unmarked]
    exact stillHead.writeCore context run

theorem stillNodes_write {context : Context} (nodes : List Node) (still : StillNodes nodes)
    (unhoisted : NodesUnhoisted context.annotations nodes) :
    ∃ codes, List.Forall₂ WritesOnly (nodeWriters context nodes) codes := by
  match nodes, still, unhoisted with
  | [], _, _ => exact ⟨[], .nil⟩
  | .element element :: rest, ⟨first, others⟩, ⟨here, below⟩ =>
    obtain ⟨code, writes⟩ := still_writes element first here
    obtain ⟨codes, same⟩ := stillNodes_write rest others below
    exact ⟨code :: codes, .cons writes same⟩
  | .text _ :: rest, ⟨_, others⟩, ⟨_, below⟩ =>
    obtain ⟨codes, same⟩ := stillNodes_write rest others below
    exact ⟨_ :: codes, .cons (fun _ => rfl) same⟩
  | .comment _ :: rest, ⟨_, others⟩, ⟨_, below⟩ =>
    obtain ⟨codes, same⟩ := stillNodes_write rest others below
    exact ⟨_ :: codes, .cons (fun _ => rfl) same⟩

end

mutual

/-- What is written for a still element is read as what it means. -/
theorem still_agrees {context : Context} (standard : StandardSettings context.settings)
    (element : Element) (still : StillElement element)
    (unhoisted : Unhoisted context.annotations element) :
    WriterAgrees (writeElement context element) (elementMeaning context element) := by
  match element, still, unhoisted with
  | ⟨head, children, branches⟩, ⟨stillHead, named, stillChildren⟩, ⟨unmarked, below⟩ =>
    rw [writeElement, elementMeaning, stillHead.layers unmarked]
    exact core_agrees standard (stillHead.soundHead named)
      (stillNodes_agree standard children stillChildren below) (nodeWriters_length context children)

theorem stillNodes_agree {context : Context} (standard : StandardSettings context.settings)
    (nodes : List Node) (still : StillNodes nodes)
    (unhoisted : NodesUnhoisted context.annotations nodes) :
    List.Forall₂ WriterAgrees (nodeWriters context nodes) (nodeMeanings context nodes) := by
  match nodes, still, unhoisted with
  | [], _, _ => exact .nil
  | .element element :: rest, ⟨first, others⟩, ⟨here, below⟩ =>
    exact .cons (still_agrees standard element first here)
      (stillNodes_agree standard rest others below)
  | .text run :: rest, ⟨plain, others⟩, ⟨_, below⟩ =>
    refine .cons (node_agrees standard (.text run) fun segment held => ?_)
      (stillNodes_agree standard rest others below)
    rw [StillNode] at plain
    rw [plain] at held
    cases held
  | .comment comment :: rest, ⟨_, others⟩, ⟨_, below⟩ =>
    exact .cons (node_agrees standard (.comment comment) trivial)
      (stillNodes_agree standard rest others below)

end

end Templating.Rendering
