import Templating.Proofs.Data.Dictionary
import Templating.Proofs.Evaluation.Cache
import Templating.Proofs.Evaluation.Marks
import Templating.Proofs.Translation.Literal
import Templating.Tree.Markup
/-!
# Literal content is shown as it is

A template of elements with literal attributes, texts and comments always
becomes functions, and renders as the tree that it shows.  Static roots are
numbered in the order of the source and carry their number in a key.
-/
set_option autoImplicit false

namespace Templating.Evaluation

open Templating.Text Templating.Data Templating.Expression Templating.Rendering Templating.Template

/-! ## The tree that is shown -/

def literalPairs (head : Head) : List (String × String) :=
  head.attributes.map fun item => (item.name, item.value)

/-- Only the literal attributes; the last of two with one name counts. -/
def literalProps (head : Head) : Tree.Props :=
  { Tree.Props.empty with attributes := Dictionary.ofPairs (literalPairs head) }

def rootProps (head : Head) (number : Nat) : Tree.Props :=
  { literalProps head with isStatic := true, key := some ("__static__" ++ toString number) }

mutual

/-- The tree that a literal element shows, where so many static roots are in
front of it, and how many there are with those inside. -/
def mirror (annotations : Annotations) (number : Nat) : Element → Tree.Node × Nat
  | ⟨head, children, _⟩ =>
    let isRoot := (annotations.get head.id).isRoot
    let below := mirrorNodes annotations (if isRoot then number + 1 else number) children
    (.element head.tag (if isRoot then rootProps head number else literalProps head) below.1,
      below.2)

def mirrorNode (annotations : Annotations) (number : Nat) : Node → Tree.Node × Nat
  | .element element => mirror annotations number element
  | .text run => (.text run.content, number)
  | .comment comment => (.comment comment.content, number)

def mirrorNodes (annotations : Annotations) (number : Nat) : List Node → List Tree.Node × Nat
  | [] => ([], number)
  | node :: rest =>
    let first := mirrorNode annotations number node
    let others := mirrorNodes annotations first.2 rest
    (first.1 :: others.1, others.2)

end

/-! ## Entries of objects -/

theorem lookup_setEntry (name other : String) (value : Datum) (entries : List (String × Datum)) :
    (setEntry other value entries).lookup name =
      if name = other then some value else entries.lookup name := by
  induction entries with
  | nil =>
    by_cases same : name = other
    · simp [setEntry, same]
    · simp [setEntry, same, List.lookup_cons, beq_eq_false_iff_ne.mpr same]
  | cons first rest ih =>
    obtain ⟨held, kept⟩ := first
    by_cases here : held = other
    · subst here
      by_cases same : name = held
      · simp [setEntry, same]
      · simp [setEntry, same, List.lookup_cons, beq_eq_false_iff_ne.mpr same]
    · by_cases same : name = held
      · subst same
        simp [setEntry, here]
      · simp [setEntry, here, List.lookup_cons, beq_eq_false_iff_ne.mpr same, ih]

theorem names_setEntry (name : String) (value : Datum) (entries : List (String × Datum)) :
    (setEntry name value entries).map Prod.fst =
      if name ∈ entries.map Prod.fst then entries.map Prod.fst
      else entries.map Prod.fst ++ [name] := by
  induction entries with
  | nil => rfl
  | cons first rest ih =>
    obtain ⟨other, held⟩ := first
    by_cases same : other = name
    · simp [setEntry, same]
    · have differs : name ≠ other := Ne.symm same
      simp only [setEntry, same, if_false, List.map_cons, ih, List.mem_cons, differs, false_or]
      split <;> rfl

theorem nodup_setEntry {entries : List (String × Datum)} (names : (entries.map Prod.fst).Nodup)
    (name : String) (value : Datum) : ((setEntry name value entries).map Prod.fst).Nodup := by
  rw [names_setEntry]
  split
  · exact names
  · next absent => exact List.concat_eq_append ▸ names.concat absent

/-- The entries that an object of texts has in the end. -/
def textEntries (pairs : List (String × String)) : List (String × Datum) :=
  pairs.foldl (fun entries pair => setEntry pair.1 (.ofString pair.2) entries) []

theorem textEntries_concat (pairs : List (String × String)) (pair : String × String) :
    textEntries (pairs ++ [pair]) = setEntry pair.1 (.ofString pair.2) (textEntries pairs) := by
  simp [textEntries]

theorem nodup_textEntries (pairs : List (String × String)) :
    ((textEntries pairs).map Prod.fst).Nodup := by
  induction pairs using List.reverseRecOn with
  | nil => exact List.nodup_nil
  | append_singleton pairs pair ih =>
    rw [textEntries_concat]
    exact nodup_setEntry ih _ _

theorem lookup_textEntries (name : String) (pairs : List (String × String)) :
    (textEntries pairs).lookup name = (pairs.reverse.lookup name).map Datum.ofString := by
  induction pairs using List.reverseRecOn with
  | nil => rfl
  | append_singleton pairs pair ih =>
    rw [textEntries_concat, lookup_setEntry, ih, List.reverse_append, List.reverse_singleton,
      List.singleton_append]
    obtain ⟨other, content⟩ := pair
    by_cases same : name = other
    · simp [same]
    · simp [same, List.lookup_cons, beq_eq_false_iff_ne.mpr same]

theorem toFields_eq_map (entries : List (String × Datum)) :
    Datum.toFields entries = entries.map fun entry => (entry.1, entry.2.toValue) := by
  induction entries with
  | nil => rfl
  | cons first rest ih =>
    obtain ⟨name, held⟩ := first
    rw [Datum.toFields, ih, List.map_cons]

theorem merge_textFields (pairs : List (String × String)) :
    Dictionary.merge [] (textFields (Datum.record (textEntries pairs)).toValue) =
      Dictionary.ofPairs pairs := by
  let texts := (textEntries pairs).map fun entry => (entry.1, entry.2.toValue)
  have names : (texts.map Prod.fst).Nodup := by
    simpa [texts, Function.comp_def] using nodup_textEntries pairs
  have found (name : String) : Dictionary.find? name (Dictionary.ofPairs texts) =
      (pairs.reverse.lookup name).map Value.string := by
    rw [Dictionary.find_ofPairs, Dictionary.lookup_reverse names,
      Dictionary.lookup_map Datum.toValue, lookup_textEntries, Option.map_map]
    rfl
  have strings : ∀ field ∈ Dictionary.ofPairs texts, ∃ content, field.2 = .string content := by
    intro field held
    have given := Dictionary.find_of_mem (Dictionary.sorted_ofPairs texts) held
    rw [found] at given
    obtain ⟨content, -, same⟩ := Option.map_eq_some_iff.mp given
    exact ⟨content, same.symm⟩
  have fields : textFields (Datum.record (textEntries pairs)).toValue =
      (Dictionary.ofPairs texts).map fun field => (field.1, field.2.shown) := by
    rw [Datum.toValue, toFields_eq_map, Value.ofPairs, textFields, List.filter_eq_self.mpr]
    intro field held
    obtain ⟨content, same⟩ := strings field held
    rw [same]
    rfl
  refine Dictionary.Sorted.ext (Dictionary.sorted_ofPairs _) (Dictionary.sorted_ofPairs _) fun name => ?_
  have sorted := (Dictionary.sorted_ofPairs texts).names_nodup
  rw [fields, Dictionary.find_merge, Dictionary.find_ofPairs, Dictionary.lookup_reverse,
    Dictionary.lookup_map Value.shown, ← Dictionary.find_eq_lookup, found, Option.map_map]
  · exact Option.or_none.trans Option.map_id'
  · simpa [Function.comp_def] using sorted

def literalData (head : Head) : List (String × Datum) :=
  (if head.isVerbatim then [("pre", .ofBool true)] else []) ++
    if head.attributes.isEmpty then [] else [("attrs", .record (textEntries (literalPairs head)))]

theorem propsOf_literalData (head : Head) : propsOf (literalData head) = literalProps head := by
  have attributes : Dictionary.merge [] (textFields (Datum.record (textEntries (literalPairs head))).toValue) =
      (literalProps head).attributes := merge_textFields _
  have none (empty : head.attributes.isEmpty = true) : (literalProps head).attributes = [] := by
    simp [literalProps, literalPairs, List.isEmpty_iff.mp empty, Dictionary.ofPairs]
  have same : propsOf (literalData head) = { Tree.Props.empty with attributes := (literalProps head).attributes } := by
    unfold literalData
    cases head.isVerbatim <;> cases empty : head.attributes.isEmpty
    · rw [← attributes]; rfl
    · rw [none empty]; rfl
    · rw [← attributes]; rfl
    · rw [none empty]; rfl
  exact same

/-! ## Steps that succeed -/

section Steps

variable {good : FragmentCache → Prop} {α β : Type}

/-- With every good cache the step succeeds with the value, and leaves the cache
good. -/
def Yields (good : FragmentCache → Prop) (step : Eval α) (value : α) : Prop :=
  ∀ cache, good cache → ∃ after, step cache = (.ok value, after) ∧ good after

theorem Yields.pure (value : α) : Yields good (Pure.pure value) value :=
  fun cache held => ⟨cache, rfl, held⟩

theorem Yields.bind {step : Eval α} {value : α} {next : α → Eval β} {result : β}
    (first : Yields good step value) (second : Yields good (next value) result) :
    Yields good (step >>= next) result := by
  intro cache held
  obtain ⟨between, run, goodBetween⟩ := first cache held
  obtain ⟨after, runThen, goodAfter⟩ := second between goodBetween
  exact ⟨after, by rw [run_bind, run]; exact runThen, goodAfter⟩

end Steps

section Evaluation

variable {good : FragmentCache → Prop} {environment : Environment} {enter : Entrance}

theorem evaluate_text (content : String) :
    Yields good (evaluate environment enter [] (textExpr content)) (.ofString content) := by
  simp only [textExpr, evaluate]
  exact .pure _

theorem evaluateAll_yields {items : List Expr} {values : List Datum}
    (each : List.Forall₂ (fun item value => Yields good (evaluate environment enter [] item) value)
      items values) :
    Yields good (evaluateAll environment enter [] items) values := by
  induction each with
  | nil => simp only [evaluateAll]; exact .pure _
  | cons first others ih =>
    simp only [evaluateAll]
    exact first.bind (ih.bind (.pure _))

theorem helperCall_yields {name : String} (builtin : Text.startsWith ['_'] name.toList = true)
    {arguments : List Expr} {values : List Datum} {result : Datum}
    (given : Yields good (evaluateAll environment enter [] arguments) values)
    (called : Yields good (callBuiltin environment enter name values) result) :
    Yields good (evaluate environment enter [] (helperCall name arguments)) result := by
  rw [evaluate_helperCall builtin List.lookup_nil]
  exact given.bind called

theorem attributesMeaning_yields {items : List Attribute}
    (plain : ∀ item ∈ items, item.isDynamic = false) :
    Yields good (evaluate environment enter [] (attributesMeaning items))
      (.record (textEntries (items.map fun item => (item.name, item.value)))) := by
  have entries (done : List (String × Datum)) :
      Yields good (evaluateEntries environment enter [] done (items.map attributeMeaning))
        (items.foldl (fun entries item => setEntry item.name (.ofString item.value) entries) done) := by
    induction items generalizing done with
    | nil => simp only [List.map_nil, evaluateEntries]; exact .pure _
    | cons item rest ih =>
      have literal := plain item List.mem_cons_self
      simp only [Attribute.isDynamic, Bool.or_eq_false_iff] at literal
      simp only [List.map_cons, attributeMeaning, keyMeaning, literal, Bool.false_eq_true, if_false,
        evaluateEntries, evaluateKey, pure_bind, List.foldl_cons]
      exact (evaluate_text _).bind (ih (fun item held => plain item (List.mem_cons_of_mem _ held)) _)
  simp only [attributesMeaning, evaluate]
  refine (entries []).bind ?_
  rw [textEntries, List.foldl_map]
  exact .pure _

theorem literalFields_yields {head : Head} (plain : ∀ item ∈ head.attributes, item.isDynamic = false) :
    Yields good (evaluate environment enter [] (.record (literalFields head)))
      (.record (literalData head)) := by
  have attributes : Yields good (evaluate environment enter [] (attributesMeaning head.attributes))
      (.record (textEntries (literalPairs head))) := attributesMeaning_yields plain
  unfold literalFields literalData unlessEmpty
  cases head.isVerbatim <;> cases head.attributes.isEmpty <;>
    simp only [Bool.false_eq_true, if_true, if_false, List.nil_append, List.append_nil,
      List.cons_append, namedField, booleanExpr, evaluate, evaluateEntries, evaluateKey, pure_bind,
      bind_assoc]
  · exact attributes.bind (.pure _)
  · exact .pure _
  · exact attributes.bind (.pure _)
  · exact .pure _

theorem createElement_literal {head : Head} (named : head.tag ≠ "") (nodes : List Tree.Node) :
    createElement (.ofString head.tag ::
        ((if (literalFields head).isEmpty then [] else [.record (literalData head)]) ++
          if nodes.isEmpty then [] else [.list (nodes.map .node)])) =
      .ok (.node (.element head.tag (literalProps head) nodes)) := by
  have unnamed : (head.tag == "") = false := beq_eq_false_iff_ne.mpr named
  have props := propsOf_literalData head
  have bare (empty : (literalFields head).isEmpty = true) : literalProps head = .empty := by
    simp only [literalFields, unlessEmpty, List.isEmpty_iff, List.append_eq_nil_iff] at empty
    have none : literalData head = [] := by
      simpa [literalData] using empty
    rw [← props, none]
    rfl
  have children (props : Tree.Props) :
      Datum.node (.element head.tag props (nodesOf (.list (nodes.map .node)))) =
        .node (.element head.tag props nodes) := by
    rw [nodesOf, nodesOfAll_map]
  simp only [createElement, Datum.ofString, unnamed, Bool.false_eq_true, if_false]
  cases empty : (literalFields head).isEmpty
  · rw [← props]
    cases nodes with
    | nil => rfl
    | cons node others => exact congrArg Except.ok (children _)
  · rw [bare empty]
    cases nodes with
    | nil => rfl
    | cons node others => exact congrArg Except.ok (children _)

theorem element_yields {head : Head} (plain : ∀ item ∈ head.attributes, item.isDynamic = false)
    (named : head.tag ≠ "") {parts : List Expr} {nodes : List Tree.Node}
    (shown : List.Forall₂ (fun part node => Yields good (evaluate environment enter [] part) (.node node))
      parts nodes) :
    Yields good (evaluate environment enter []
        (helperCall "_c" (literalArguments head ++ if parts.isEmpty then [] else [.list parts])))
      (.node (.element head.tag (literalProps head) nodes)) := by
  have children : Yields good (evaluate environment enter [] (.list parts)) (.list (nodes.map .node)) := by
    simp only [evaluate]
    refine (evaluateAll_yields ?_).bind (.pure _)
    rw [List.forall₂_map_right_iff]
    exact shown
  have data := @literalFields_yields good environment enter head plain
  have none : parts.isEmpty = nodes.isEmpty := by
    cases shown <;> rfl
  let values : List Datum := .ofString head.tag ::
    ((if (literalFields head).isEmpty then [] else [.record (literalData head)]) ++
      if nodes.isEmpty then [] else [.list (nodes.map .node)])
  refine @helperCall_yields _ _ _ _ (by decide) _ values _ (evaluateAll_yields ?_) ?_
  · rw [literalArguments, none]
    refine .cons (evaluate_text _) ?_
    cases (literalFields head).isEmpty <;> cases nodes.isEmpty
    · exact .cons data (.cons children .nil)
    · exact .cons data .nil
    · exact .cons children .nil
    · exact .nil
  · simp only [callBuiltin, values, createElement_literal named]
    exact .pure _

end Evaluation

/-! ## Trees and their fragments -/

def Shows (source : Expr) (node : Tree.Node) : Prop :=
  ∀ good environment enter, Yields good (evaluate environment enter [] source) (.node node)

/-- Wherever a fragment shows a literal element, its call gives the element as
the static root with that number. -/
def Serves (fragments : List Expr) (good : FragmentCache → Prop) (environment : Environment)
    (enter : Entrance) : Prop :=
  ∀ index source head children, fragments[index]? = some source →
    Shows source (.element head.tag (literalProps head) children) → ∀ inLoop,
      Yields good (evaluate environment enter [] (fragmentCall index inLoop))
        (.node (.element head.tag (rootProps head index) children))

theorem Serves.mono {fragments more : List Expr} {good : FragmentCache → Prop}
    {environment : Environment} {enter : Entrance} (serves : Serves more good environment enter)
    (fewer : fragments <+: more) : Serves fragments good environment enter := by
  intro index source head children found
  obtain ⟨rest, rfl⟩ := fewer
  have inside : index < fragments.length := (List.getElem?_eq_some_iff.mp found).1
  exact serves index source head children ((List.getElem?_append_left inside).trans found)

/-- The translation from `kept` on has kept more fragments, as many as the tree
counts, and gives the tree where they are served. -/
structure Mirrors (kept : Kept) (run : Expr × Kept) (tree : Tree.Node × Nat) : Prop where
  grows : kept.fragments <+: run.2.fragments
  counted : tree.2 = run.2.fragments.length
  shown : ∀ good environment enter, Serves run.2.fragments good environment enter →
    Yields good (evaluate environment enter [] run.1) (.node tree.1)

structure MirrorsAll (kept : Kept) (run : List Expr × Kept) (trees : List Tree.Node × Nat) : Prop where
  grows : kept.fragments <+: run.2.fragments
  counted : trees.2 = run.2.fragments.length
  shown : ∀ good environment enter, Serves run.2.fragments good environment enter →
    List.Forall₂ (fun part node => Yields good (evaluate environment enter [] part) (.node node))
      run.1 trees.1

theorem MirrorsAll.nil (kept : Kept) : MirrorsAll kept ([], kept) ([], kept.fragments.length) where
  grows := List.prefix_rfl
  counted := rfl
  shown _ _ _ _ := .nil

theorem MirrorsAll.cons {kept : Kept} {run : Expr × Kept} {tree : Tree.Node × Nat}
    {others : List Expr × Kept} {trees : List Tree.Node × Nat} (first : Mirrors kept run tree)
    (rest : MirrorsAll run.2 others trees) :
    MirrorsAll kept (run.1 :: others.1, others.2) (tree.1 :: trees.1, trees.2) where
  grows := first.grows.trans rest.grows
  counted := rest.counted
  shown good environment enter serves :=
    .cons (first.shown good environment enter (serves.mono rest.grows))
      (rest.shown good environment enter serves)

theorem Mirrors.leaf {source : Expr} {node : Tree.Node} (shows : Shows source node) (kept : Kept) :
    Mirrors kept (source, kept) (node, kept.fragments.length) where
  grows := List.prefix_rfl
  counted := rfl
  shown good environment enter _ := shows good environment enter

theorem shows_text {run : TextRun} (plain : run.segments = []) :
    Shows (runMeaning run) (.text run.content) := by
  intro good environment enter
  rw [runMeaning, plain]
  refine helperCall_yields (by decide)
    (evaluateAll_yields (.cons (evaluate_text run.content) .nil)) ?_
  simp only [callBuiltin]
  exact .pure _

theorem shows_comment (content : String) :
    Shows (helperCall "_e" [textExpr content]) (.comment content) := by
  intro good environment enter
  refine helperCall_yields (by decide) (evaluateAll_yields (.cons (evaluate_text content) .nil)) ?_
  simp only [callBuiltin]
  exact .pure _

mutual

/-- Where no static root is inside, the numbers play no part. -/
theorem mirror_of_unhoisted {annotations : Annotations} (element : Element)
    (unhoisted : Unhoisted annotations element) :
    ∃ tree, ∀ number, mirror annotations number element = (tree, number) := by
  match element with
  | ⟨head, children, branches⟩ =>
    obtain ⟨trees, same⟩ := mirrorNodes_of_unhoisted children unhoisted.2
    exact ⟨.element head.tag (literalProps head) trees, fun number => by
      simp only [mirror, unhoisted.1, Bool.false_eq_true, if_false, same]⟩

theorem mirrorNodes_of_unhoisted {annotations : Annotations} (nodes : List Node)
    (unhoisted : NodesUnhoisted annotations nodes) :
    ∃ trees, ∀ number, mirrorNodes annotations number nodes = (trees, number) := by
  match nodes with
  | [] => exact ⟨[], fun _ => rfl⟩
  | node :: rest =>
    obtain ⟨trees, sameRest⟩ := mirrorNodes_of_unhoisted rest unhoisted.2
    have first : ∃ tree, ∀ number, mirrorNode annotations number node = (tree, number) := by
      match node with
      | .element element => exact mirror_of_unhoisted element unhoisted.1
      | .text run => exact ⟨_, fun _ => rfl⟩
      | .comment comment => exact ⟨_, fun _ => rfl⟩
    obtain ⟨tree, same⟩ := first
    exact ⟨tree :: trees, fun number => by simp only [mirrorNodes, same, sameRest]⟩

end

def translateAll (translators : List Translator) (loops : List (Option String)) :
    Translation (List Expr) :=
  translators.mapM fun translator => translator loops

theorem translateAll_cons (translator : Translator) (others : List Translator)
    (loops : List (Option String)) (kept : Kept) :
    translateAll (translator :: others) loops kept =
      let first := translator loops kept
      let rest := translateAll others loops first.2
      (first.1 :: rest.1, rest.2) := by
  rw [translateAll, List.mapM_cons]
  rfl

section Translation

variable {settings : Settings} (unextended : settings.extensions = []) {annotations : Annotations}

include unextended

theorem core_run {head : Head} (literal : head.isLiteral = true) (still : IsStill head)
    {children : List Template.Node} (below : allLiteral children = true)
    (translators : List Translator) (loops : List (Option String)) (kept : Kept) :
    coreMeaning settings head children translators loops kept =
      let parts := translateAll translators loops kept
      (helperCall "_c" (literalArguments head ++ if parts.1.isEmpty then [] else [.list parts.1]),
        parts.2) := by
  rw [coreMeaning_of_isLiteral unextended literal still below]
  rfl

theorem core_mirrors {head : Head} (literal : head.isLiteral = true) (still : IsStill head)
    (named : head.tag ≠ "") {children : List Template.Node} (below : allLiteral children = true)
    {translators : List Translator} {loops : List (Option String)} {kept : Kept}
    {trees : List Tree.Node × Nat}
    (mirrors : MirrorsAll kept (translateAll translators loops kept) trees) :
    Mirrors kept (coreMeaning settings head children translators loops kept)
      (.element head.tag (literalProps head) trees.1, trees.2) := by
  rw [core_run unextended literal still below]
  exact
    { grows := mirrors.grows
      counted := mirrors.counted
      shown := fun good environment enter serves =>
        element_yields still.attributes named (mirrors.shown good environment enter serves) }

theorem hoist_mirrors {head : Head} (literal : head.isLiteral = true) (still : IsStill head)
    (named : head.tag ≠ "") {children : List Template.Node} (below : allLiteral children = true)
    (stillBelow : StillNodes children) (unhoisted : NodesUnhoisted annotations children)
    {trees : List Tree.Node} {loops : List (Option String)}
    (mirrors : MirrorsAll .empty
      (translateAll (nodeMeanings ⟨settings, annotations⟩ children) loops .empty) (trees, 0))
    (branches : List (Option String × Translator)) (kept : Kept) :
    Mirrors kept
      (Layer.hoist.meaning ⟨settings, annotations⟩ head branches
        (coreMeaning settings head children (nodeMeanings ⟨settings, annotations⟩ children)) loops kept)
      (.element head.tag (rootProps head kept.fragments.length) trees, kept.fragments.length + 1) := by
  obtain ⟨meaning, -, core⟩ := still_core settings still children stillBelow
  have same := core annotations unhoisted loops
  have shows : Shows meaning (.element head.tag (literalProps head) trees) := by
    intro good environment enter
    have shown := (core_mirrors unextended literal still named below mirrors).shown good
      environment enter
    rw [same] at shown
    exact shown fun index source head children found => by cases found
  have run : Layer.hoist.meaning ⟨settings, annotations⟩ head branches
      (coreMeaning settings head children (nodeMeanings ⟨settings, annotations⟩ children)) loops kept =
        (fragmentCall kept.fragments.length (annotations.get head.id).isInLoop,
          { kept with fragments := kept.fragments ++ [meaning] }) := by
    simp only [Layer.meaning, same]
    rfl
  rw [run]
  exact
    { grows := List.prefix_append _ _
      counted := by simp
      shown := fun good environment enter serves =>
        serves _ meaning head trees (by simp) shows _ }

end Translation

mutual

/-- A literal element and its fragments show the tree that mirrors it. -/
theorem element_mirrors {settings : Settings} (unextended : settings.extensions = [])
    {annotations : Annotations} (element : Element) (literal : element.isLiteral = true)
    (still : StillElement element) (fragments : FragmentsStill annotations element)
    (loops : List (Option String)) (kept : Kept) :
    Mirrors kept (elementMeaning ⟨settings, annotations⟩ element loops kept)
      (mirror annotations kept.fragments.length element) := by
  match element with
  | ⟨head, children, branches⟩ =>
    obtain ⟨own, -, below⟩ := Element.isLiteral_iff.mp literal
    obtain ⟨stillHead, named, stillBelow⟩ := still
    obtain ⟨hoisted, fragmentsBelow, -⟩ := fragments
    have mirrors := nodes_mirror unextended children below stillBelow fragmentsBelow
    rw [elementMeaning, mirror]
    cases root : (annotations.get head.id).isRoot with
    | false =>
      rw [stillHead.layers root]
      exact core_mirrors unextended own stillHead named.nonempty below (mirrors loops kept)
    | true =>
      rw [stillHead.layers_root root] at hoisted ⊢
      obtain ⟨-, -, -, unhoisted⟩ := hoisted (List.mem_singleton_self _)
      obtain ⟨trees, same⟩ := mirrorNodes_of_unhoisted children unhoisted
      simp only [if_true, same]
      refine hoist_mirrors unextended own stillHead named.nonempty below stillBelow unhoisted
        ?_ (branchMeanings ⟨settings, annotations⟩ branches) kept
      have alone := mirrors loops .empty
      rw [same] at alone
      exact alone

theorem nodes_mirror {settings : Settings} (unextended : settings.extensions = [])
    {annotations : Annotations} (nodes : List Template.Node) (literal : allLiteral nodes = true)
    (still : StillNodes nodes) (fragments : NodesFragmentsStill annotations nodes)
    (loops : List (Option String)) (kept : Kept) :
    MirrorsAll kept
      (translateAll (nodeMeanings ⟨settings, annotations⟩ nodes) loops kept)
      (mirrorNodes annotations kept.fragments.length nodes) := by
  match nodes with
  | [] => exact .nil kept
  | node :: rest =>
    obtain ⟨first, others⟩ := allLiteral_cons.mp literal
    rw [nodeMeanings, translateAll_cons]
    match node with
    | .element element =>
      have here := element_mirrors unextended element first still.1 fragments.1 loops kept
      have behind := nodes_mirror unextended rest others still.2 fragments.2 loops
        (elementMeaning ⟨settings, annotations⟩ element loops kept).2
      rw [← here.counted] at behind
      exact .cons here behind
    | .text run =>
      have here := Mirrors.leaf (shows_text (List.isEmpty_iff.mp first)) kept
      exact .cons here (nodes_mirror unextended rest others still.2 fragments loops kept)
    | .comment comment =>
      have here := Mirrors.leaf (shows_comment comment.content) kept
      exact .cons here (nodes_mirror unextended rest others still.2 fragments loops kept)

end

/-! ## Fragments are served -/

theorem Shows.gives {source : Expr} {node : Tree.Node} (shows : Shows source node)
    (environment : Environment) (enter : Entrance) :
    Gives (evaluate environment enter [] source) (.ok (.node node)) := by
  intro cache
  obtain ⟨after, run, same⟩ := shows (· = cache) environment enter cache rfl
  rw [run, same]

theorem evaluateCalls_eq (environment : Environment) (fragment : Expr → Eval Datum) (depth : Nat) :
    ∃ body, ∀ scope source, evaluateCalls environment fragment depth scope source =
      evaluate environment ⟨body, fragment⟩ scope source := by
  cases depth with
  | zero => exact ⟨_, fun _ _ => rfl⟩
  | succ depth => exact ⟨_, fun _ _ => rfl⟩

theorem evaluateFragments_eq (environment : Environment) (depth levels : Nat) :
    ∃ fragment, ∀ source, evaluateFragments environment depth levels source =
      evaluateCalls environment fragment depth [] source := by
  cases levels with
  | zero => exact ⟨_, fun _ => rfl⟩
  | succ levels => exact ⟨_, fun _ => rfl⟩

section Served

variable {environment : Environment} {enter : Entrance} {built : Nat → Except Halt Fragment}

theorem serves_of_builds
    (builds : ∀ index, Gives (buildFragment environment enter index) (built index))
    (enters : ∀ source node, Shows source node → Gives (enter.fragment source) (.ok (.node node)))
    (few : environment.fragments.length ≤ Number.twoTo 53) :
    Serves environment.fragments (IsGood built) environment enter := by
  intro index source head children found shows inLoop
  have inside : index < environment.fragments.length := (List.getElem?_eq_some_iff.mp found).1
  let root : Tree.Node := .element head.tag (rootProps head index) children
  have gives : Gives (buildFragment environment enter index) (.ok (.node root)) := by
    intro cache
    rw [buildFragment, found]
    simp only [run_bind, enters source _ shows cache]
    rfl
  have same : built index = .ok (.node root) :=
    (congrArg Prod.fst ((builds index []).symm.trans (gives [])) :)
  have anew : Yields (IsGood built) (buildFragment environment enter index) (.node root) :=
    fun cache good => ⟨cache, gives cache, good⟩
  have once : Yields (IsGood built) (keptFragment environment enter index) (.node root) := by
    intro cache good
    rw [keptFragment_run (builds index)]
    cases kept : cache.lookup index with
    | some fragment =>
      have equal : fragment = .node root := Except.ok.inj ((good index fragment kept).symm.trans same)
      exact ⟨cache, by rw [equal], good⟩
    | none => exact ⟨_, by rw [same], good.cons same⟩
  rw [evaluate_fragmentCall (inside.trans_le few) List.lookup_nil]
  cases inLoop with
  | false => exact once.bind (.pure _)
  | true => exact anew.bind (.pure _)

end Served

theorem Shows.gives_fragments {source : Expr} {node : Tree.Node} (shows : Shows source node)
    (environment : Environment) (depth levels : Nat) :
    Gives (evaluateFragments environment depth levels source) (.ok (.node node)) := by
  obtain ⟨fragment, inFragments⟩ := evaluateFragments_eq environment depth levels
  obtain ⟨body, inCalls⟩ := evaluateCalls_eq environment fragment depth
  rw [inFragments, inCalls]
  exact shows.gives _ _

/-- A program whose fragments are inert renders what it gives where they are
served. -/
theorem renderWithin_yields {fragments : List Expr} (inert : ∀ source ∈ fragments, IsInert source)
    (few : fragments.length ≤ Number.twoTo 53) {program : Expr} {node : Tree.Node}
    (shown : ∀ good environment enter, Serves fragments good environment enter →
      Yields good (evaluate environment enter [] program) (.node node))
    (slots : Dictionary (List Tree.Node)) (depth : Nat) (data : Value) :
    Yields (IsGood (inertFragment fragments slots depth))
      (renderWithin ⟨data, fragments, slots⟩ depth program) node := by
  refine Yields.bind (?_ : Yields _ _ (.node node)) (.pure _)
  cases counted : fragments.length with
  | zero =>
    obtain rfl := List.length_eq_zero_iff.mp counted
    obtain ⟨body, inCalls⟩ := evaluateCalls_eq ⟨data, [], slots⟩ (fun _ => throw .tooDeep) depth
    rw [evaluateFragments, inCalls]
    exact shown _ _ _ fun _ _ _ _ found => by cases found
  | succ levels =>
    obtain ⟨body, inCalls⟩ := evaluateCalls_eq ⟨data, fragments, slots⟩
      (evaluateFragments ⟨data, fragments, slots⟩ depth levels) depth
    rw [evaluateFragments, inCalls]
    refine shown _ _ _ (@serves_of_builds ⟨data, fragments, slots⟩ _ _ (fun index => ?_)
      (fun source node shows => ?_) few)
    · cases levels <;> exact buildFragment_inert inert slots depth data rfl index
    · exact shows.gives_fragments _ _ _

/-! ## Literal templates -/

theorem bodies_of_read {sources : List String} {programs : List Expr} {functions : List SourceFunction}
    {index : Nat} (read : sources.map parseProgram? = programs.map some)
    (made : fragmentFunctions index sources = .ok functions) :
    functions.map SourceFunction.body = programs := by
  induction sources generalizing programs functions index with
  | nil =>
    cases made
    exact (List.map_eq_nil_iff.mp read.symm).symm
  | cons source rest ih =>
    cases programs with
    | nil => cases read
    | cons program others =>
      obtain ⟨first, behind⟩ := List.cons_eq_cons.mp read
      have body : SourceFunction.ofSource? source = some ⟨source, program⟩ := by
        rw [SourceFunction.ofSource?, first]
        rfl
      rw [fragmentFunctions, body] at made
      cases more : fragmentFunctions (index + 1) rest with
      | error fault =>
        rw [more] at made
        cases made
      | ok found =>
        rw [more] at made
        cases made
        rw [List.map_cons, ih behind more]

theorem bodies_of_readsAsMeant {settings : Settings} {template : String} {functions : Functions}
    (reads : ReadsAsMeant settings (compile settings template))
    (made : Functions.ofTemplate settings template = .ok functions) :
    functions.render.body = ((compile settings template).meaning settings).1 ∧
      functions.fragments.map SourceFunction.body =
        ((compile settings template).meaning settings).2 := by
  have fragments := bodies_of_read reads.fragments (fragmentFunctions_of_ofTemplate made)
  rw [Functions.ofTemplate] at made
  generalize compile settings template = compiled at reads made fragments ⊢
  have body : SourceFunction.ofSource? compiled.render =
      some ⟨compiled.render, (compiled.meaning settings).1⟩ := by
    rw [SourceFunction.ofSource?, reads.render, Option.map_some]
  rw [Functions.ofSources, body] at made
  cases others : fragmentFunctions 0 compiled.fragments with
  | error fault =>
    rw [others] at made
    cases made
  | ok found =>
    rw [others] at made
    cases made
    exact ⟨rfl, fragments⟩

theorem meaning_of_root {settings : Settings} {compiled : Compiled} {root : Element}
    (parsed : compiled.document.root = some root) (noScript : root.head.tag ≠ "script") :
    compiled.meaning settings =
      let run := elementMeaning ⟨settings, compiled.annotations⟩ root [] .empty
      (run.1, run.2.fragments) := by
  rw [Compiled.meaning, documentMeaning, parsed]
  simp only [beq_eq_false_iff_ne.mpr noScript, Bool.false_eq_true, if_false]
  rfl

/-- A literal template becomes functions that render the tree it shows, on all
data and with all nodes for outlets, as far as the numbers of its static roots
are exact. -/
theorem render_eq_mirror {overlay : Overlay} (plain : overlay.isPlain = true) (template : String)
    {root : Element}
    (parsed : (compile (Settings.neutral.overlaid overlay) template).document.root = some root)
    (noScript : root.head.tag ≠ "script") (literal : root.isLiteral = true) :
    ∃ handle, ((Compiler.new .neutral).functions overlay template).1 = .ok handle ∧
      ∀ (slots : Dictionary (List Tree.Node)) (data : Value),
        handle.functions.fragments.length ≤ Number.twoTo 53 →
          (Instance.fresh handle.functions slots data).render.1 =
            .ok (mirror (compile (Settings.neutral.overlaid overlay) template).annotations 0 root).1 := by
  have known : IsBase Settings.neutral := .inr rfl
  have unextended : (Settings.neutral.overlaid overlay).extensions = [] := (overlaid_plain plain).1
  have formed := parse_formed (base_isFaithful known plain) (trimmed template)
  have bare := parse_unextended unextended (trimmed template)
  rw [← (compile_parts (Settings.neutral.overlaid overlay) template).1, parsed] at formed bare
  have still := stillElement_of_isLiteral root literal (formed root rfl) (bare root rfl)
  have reads : ReadsAsMeant (Settings.neutral.overlaid overlay)
      (compile (Settings.neutral.overlaid overlay) template) := by
    refine readsAsMeant_of_sound (base_standard known plain) fun other held => ?_
    rw [parsed] at held
    cases held
    exact soundElement_of_still root literal still
  have repeatable : (compile (Settings.neutral.overlaid overlay) template).document.EveryHead
      IsRepeatable := by
    intro other held
    rw [parsed] at held
    cases held
    exact everyHead_of_isLiteral root literal
  obtain ⟨handle, made⟩ := @functions_of_ofTemplate (Compiler.new .neutral) overlay template
    (ofTemplate_of_readsAsMeant reads)
  refine ⟨handle, made, fun slots data few => ?_⟩
  have functions := ofTemplate_of_new made
  obtain ⟨render, fragments⟩ := bodies_of_readsAsMeant reads functions
  have inert : ∀ source ∈ handle.functions.fragments.map SourceFunction.body, IsInert source :=
    List.forall_mem_map.mpr
      (bodies_inert (fragmentFunctions_of_ofTemplate functions)
        (fragments_inert known plain template repeatable))
  have mirrors := element_mirrors unextended root literal still
    (compile_fragmentsStill known plain template repeatable root parsed) [] .empty
  rw [meaning_of_root parsed noScript] at render fragments
  dsimp only at render fragments
  obtain ⟨after, run, -⟩ := renderWithin_yields inert (by rwa [List.length_map])
    (fun good environment enter serves => mirrors.shown good environment enter (fragments ▸ serves))
    slots Instance.standardDepth data [] (.nil _)
  rw [← render] at run
  exact congrArg Prod.fst run

def commented : Overlay := { Overlay.empty with keepsComments := some true }

/-- Texts that look like render source, around and inside a static root. -/
def quotedTemplate : String :=
  "<div id=\"a'b\\\"><component><p title='&quot;)\x7d]'>it's \\ \u2028</p><!--_c('b')--></component>" ++
    "\x7b\x7b</div>"

theorem quotedTemplate_render :
    commented.isPlain = true ∧ ∃ root handle,
      (compile (Settings.neutral.overlaid commented) quotedTemplate).document.root = some root ∧
      root.head.tag ≠ "script" ∧ root.isLiteral = true ∧
      ((Compiler.new .neutral).functions commented quotedTemplate).1 = .ok handle ∧
      handle.functions.fragments.length = 1 ∧
      (mirror (compile (Settings.neutral.overlaid commented) quotedTemplate).annotations 0
        root).1.markup =
        "<div id=\"a'b\\\"><component><p title=\"&quot;)\x7d]\">it's \\ \u2028</p><!--_c('b')--></component>" ++
          "\x7b\x7b</div>" ∧
      ∀ (slots : Dictionary (List Tree.Node)) (data : Value),
        (Instance.fresh handle.functions slots data).render.1 =
          .ok (mirror (compile (Settings.neutral.overlaid commented) quotedTemplate).annotations 0
            root).1 := by
  have shape : ((compile (Settings.neutral.overlaid commented) quotedTemplate).document.root.map
      fun root => (root.head.tag != "script", root.isLiteral,
        (mirror (compile (Settings.neutral.overlaid commented) quotedTemplate).annotations 0
          root).1.markup)) =
        some (true, true,
          "<div id=\"a'b\\\"><component><p title=\"&quot;)\x7d]\">it's \\ \u2028</p><!--_c('b')--></component>" ++
            "\x7b\x7b</div>") := by
    decide +kernel
  have counted : ((Functions.ofTemplate (Settings.neutral.overlaid commented)
      quotedTemplate).toOption.map fun functions => functions.fragments.length) = some 1 := by
    decide +kernel
  obtain ⟨root, parsed, same⟩ := Option.map_eq_some_iff.mp shape
  simp only [Prod.mk.injEq, bne_iff_ne] at same
  obtain ⟨noScript, literal, shown⟩ := same
  obtain ⟨handle, made, renders⟩ := render_eq_mirror rfl quotedTemplate parsed noScript literal
  have one : handle.functions.fragments.length = 1 := by
    rw [ofTemplate_of_new made] at counted
    exact Option.some.inj counted
  exact ⟨rfl, root, handle, parsed, noScript, literal, made, one, shown, fun slots data =>
    renders slots data (by rw [one]; decide)⟩

end Templating.Evaluation
