import Templating.Proofs.Template.Marking
import Templating.Proofs.Translation.Written
/-!
# Marks of loops

The analysis marks what is inside a loop, and writing knows its loops.  Where a
mark is asked for, it never stands outside a loop.  Inside one it may be missing
in the branches of an element that is repeated: writing takes them into the loop
of the element, but the analysis leaves them outside.
-/
set_option autoImplicit false

namespace Templating.Rendering

open Templating.Text Templating.Template

/-! ## Writing that looks at its own loops -/

def Context.seeing (context : Context) (head : Head) (inLoop : Bool) : Context :=
  { context with
    annotations := ⟨List.replicate head.id .none ++
      [{ context.annotations.get head.id with isInLoop := inLoop }]⟩ }

@[simp] theorem Context.seeing_get (context : Context) (head : Head) (inLoop : Bool) :
    (context.seeing head inLoop).annotations.get head.id =
      { context.annotations.get head.id with isInLoop := inLoop } := by
  simp [Context.seeing, Annotations.get, List.getD_eq_getElem?_getD]

@[simp] theorem Context.seeing_settings (context : Context) (head : Head) (inLoop : Bool) :
    (context.seeing head inLoop).settings = context.settings := rfl

mutual

/-- Writes an element as `writeElement` does, but is told by its own loops
whether it is in one. -/
def writeByLoops (context : Context) : Element → Writer
  | ⟨head, children, branches⟩ => fun loops =>
    (layers ((context.seeing head (!loops.isEmpty)).annotations.get head.id) head).foldr
      (fun layer inner =>
        layer.write (context.seeing head (!loops.isEmpty)) head (branchesByLoops context branches) inner)
      (writeCore context head children (nodesByLoops context children)) loops

def nodesByLoops (context : Context) : List Node → List Writer
  | [] => []
  | .element element :: rest => writeByLoops context element :: nodesByLoops context rest
  | .text run :: rest => writeNode context (.text run) :: nodesByLoops context rest
  | .comment comment :: rest => writeNode context (.comment comment) :: nodesByLoops context rest

def branchesByLoops (context : Context) : List Branch → List (Option String × Writer)
  | [] => []
  | ⟨condition, block⟩ :: rest =>
    (condition, writeByLoops context block) :: branchesByLoops context rest

end

def IsAsked (annotations : Annotations) (head : Head) : Prop :=
  (annotations.get head.id).isRoot = true ∨ head.isOnce = true

section Layers

variable {context : Context} {head : Head}

/-- The loops inside a layer. -/
def Layer.pass (head : Head) (loops : List (Option String)) : Layer → List (Option String)
  | .loop => loopsInside head loops
  | _ => loops

/-- Under its layers an element is written in some loops, and its branches in
those that are around the choice. -/
theorem layers_write_congr {branches others : List (Option String × Writer)} {core other : Writer}
    (all : List Layer) (loops : List (Option String))
    (inner : other (all.foldl (Layer.pass head) loops) = core (all.foldl (Layer.pass head) loops))
    (beside : ∀ before after, all = before ++ .choose :: after →
      writeBranches (before.foldl (Layer.pass head) loops) others =
        writeBranches (before.foldl (Layer.pass head) loops) branches) :
    all.foldr (fun layer inside => layer.write context head others inside) other loops =
      all.foldr (fun layer inside => layer.write context head branches inside) core loops := by
  induction all generalizing loops with
  | nil => exact inner
  | cons layer rest ih =>
    have inside := ih (Layer.pass head loops layer) inner fun before after same =>
      beside (layer :: before) after (by rw [same]; rfl)
    rw [List.foldr_cons, List.foldr_cons]
    generalize rest.foldr (fun layer inside => layer.write context head others inside) other = first
      at inside ⊢
    generalize rest.foldr (fun layer inside => layer.write context head branches inside) core = second
      at inside ⊢
    cases layer with
    | hoist =>
      have same : first loops = second loops := inside
      simp only [Layer.write, same]
    | once =>
      have same : first loops = second loops := inside
      simp only [Layer.write, same]
    | loop =>
      simp only [Layer.pass, loopsInside] at inside
      simp only [Layer.write]
      split
      · next header given =>
        rw [given, Option.isSome_some, if_pos rfl] at inside
        rw [inside]
      · next given =>
        rw [given, Option.isSome_none, if_neg Bool.false_ne_true] at inside
        exact inside
    | choose =>
      have same : first loops = second loops := inside
      have chosen : writeBranches loops others = writeBranches loops branches :=
        beside [] rest rfl
      simp only [Layer.write, same, chosen]

theorem foldl_layers (flags : Flags) (loops : List (Option String)) :
    (layers flags head).foldl (Layer.pass head) loops = loopsInside head loops := by
  cases isRoot : flags.isRoot <;> cases once : head.isOnce <;> cases repeated : head.loop.isSome <;>
    cases chosen : head.condition.isSome <;> cases inLoop : flags.isInLoop <;>
    simp [layers, Layer.pass, loopsInside, isRoot, once, repeated, chosen, inLoop]

theorem foldl_before_choose {flags : Flags} {before after : List Layer}
    (split : layers flags head = before ++ .choose :: after) (loops : List (Option String)) :
    before.foldl (Layer.pass head) loops = loopsBeside head loops ∧
      head.condition.isSome = true := by
  have chosen : head.condition.isSome = true :=
    choose_mem_layers (split ▸ List.mem_append_right before List.mem_cons_self)
  refine ⟨?_, chosen⟩
  cases once : head.isOnce with
  | true =>
    have shape : layers flags head = (if flags.isRoot then [.hoist] else []) ++ .choose ::
        (if flags.isInLoop then .once else .hoist) :: (if head.loop.isSome then [.loop] else []) := by
      simp [layers, once, chosen]
    rw [shape, List.append_cons_inj_of_notMem (by split <;> simp) (by split <;> split <;> simp)] at split
    rw [← split.1, loopsBeside, once, if_pos rfl]
    cases flags.isRoot <;> rfl
  | false =>
    have shape : layers flags head = ((if flags.isRoot then [.hoist] else []) ++
        (if head.loop.isSome then [.loop] else [])) ++ .choose :: [] := by
      simp [layers, once, chosen]
    rw [shape, List.append_cons_inj_of_notMem (by split <;> split <;> simp) (by simp)] at split
    rw [← split.1, loopsBeside, once, if_neg Bool.false_ne_true, List.foldl_append]
    cases flags.isRoot <;> cases repeated : head.loop.isSome <;>
      simp [Layer.pass, loopsInside, repeated]

end Layers

/-! ## Where the marks are right -/

section Agree

variable {context : Context}

/-- The mark of an element that is asked for says whether there are loops. -/
def MarkAgrees (annotations : Annotations) (element : Element) (loops : List (Option String)) : Prop :=
  IsAsked annotations element.head →
    (annotations.get element.head.id).isInLoop = !loops.isEmpty

theorem seeing_layers {head : Head} {loops : List (Option String)}
    (agrees : IsAsked context.annotations head →
      (context.annotations.get head.id).isInLoop = !loops.isEmpty) :
    layers ((context.seeing head (!loops.isEmpty)).annotations.get head.id) head =
      layers (context.annotations.get head.id) head := by
  rw [Context.seeing_get]
  by_cases asked : IsAsked context.annotations head
  · rw [← agrees asked]
  · obtain ⟨noRoot, repeatable⟩ := not_or.mp asked
    simp [layers, noRoot, repeatable]

theorem seeing_write {head : Head} {loops : List (Option String)}
    (agrees : IsAsked context.annotations head →
      (context.annotations.get head.id).isInLoop = !loops.isEmpty)
    {layer : Layer} (held : layer ∈ layers (context.annotations.get head.id) head)
    (branches : List (Option String × Writer)) (inner : Writer) :
    layer.write (context.seeing head (!loops.isEmpty)) head branches inner =
      layer.write context head branches inner := by
  cases layer with
  | hoist =>
    have asked : IsAsked context.annotations head := by
      by_contra silent
      obtain ⟨noRoot, repeatable⟩ := not_or.mp silent
      cases repeated : head.loop.isSome <;> cases chosen : head.condition.isSome <;>
        simp [layers, noRoot, repeatable, repeated, chosen] at held
    simp only [Layer.write, Context.seeing_get, agrees asked]
  | once => rfl
  | loop => rfl
  | choose => rfl

theorem core_congr {head : Head} {children : List Node} {writers others : List Writer}
    {loops : List (Option String)}
    (same : (others.mapM fun writer => writer loops) = writers.mapM fun writer => writer loops) :
    writeCore context head children others loops = writeCore context head children writers loops := by
  have inner : writeChildren children others loops = writeChildren children writers loops := by
    simp only [writeChildren, same]
  simp only [writeCore, inner]

end Agree

section Trees

variable (context : Context)

mutual

theorem writeByLoops_eq (element : Element) (loops : List (Option String))
    (agrees : ∀ inner here, Written element loops inner here →
      MarkAgrees context.annotations inner here) :
    writeByLoops context element loops = writeElement context element loops := by
  match element with
  | ⟨head, children, branches⟩ =>
    have own : IsAsked context.annotations head →
        (context.annotations.get head.id).isInLoop = !loops.isEmpty := agrees _ _ (.here _ _)
    have below := nodesByLoops_eq children (loopsInside head loops) fun child held inner here written =>
      agrees inner here (.child held written)
    have beside (chosen : head.condition.isSome = true) :=
      branchesByLoops_eq branches (loopsBeside head loops)
        fun before branch behind given conditional inner here written =>
          agrees inner here (.branch chosen given conditional written)
    rw [writeByLoops, writeElement]
    beta_reduce
    rw [seeing_layers own]
    have told (core : Writer) : (layers (context.annotations.get head.id) head).foldr
        (fun layer inner => layer.write (context.seeing head (!loops.isEmpty)) head
          (branchesByLoops context branches) inner) core =
        (layers (context.annotations.get head.id) head).foldr
          (fun layer inner => layer.write context head (branchesByLoops context branches) inner) core :=
      List.foldr_ext _ _ _ fun layer held inner => seeing_write own held _ inner
    rw [told]
    apply layers_write_congr
    · rw [foldl_layers]
      exact core_congr below
    · intro before after split
      obtain ⟨around, chosen⟩ := foldl_before_choose split loops
      rw [around]
      exact beside chosen

theorem nodesByLoops_eq (nodes : List Node) (loops : List (Option String))
    (agrees : ∀ child, .element child ∈ nodes → ∀ inner here, Written child loops inner here →
      MarkAgrees context.annotations inner here) :
    ((nodesByLoops context nodes).mapM fun writer => writer loops) =
      (nodeWriters context nodes).mapM fun writer => writer loops := by
  match nodes with
  | [] => rfl
  | .element element :: rest =>
    have first := writeByLoops_eq element loops (agrees element List.mem_cons_self)
    have others := nodesByLoops_eq rest loops fun child held =>
      agrees child (List.mem_cons_of_mem _ held)
    rw [nodesByLoops, nodeWriters, writeNode, List.mapM_cons, List.mapM_cons, first, others]
  | .text run :: rest =>
    have others := nodesByLoops_eq rest loops fun child held =>
      agrees child (List.mem_cons_of_mem _ held)
    rw [nodesByLoops, nodeWriters, List.mapM_cons, List.mapM_cons, others]
  | .comment comment :: rest =>
    have others := nodesByLoops_eq rest loops fun child held =>
      agrees child (List.mem_cons_of_mem _ held)
    rw [nodesByLoops, nodeWriters, List.mapM_cons, List.mapM_cons, others]

theorem branchesByLoops_eq (branches : List Branch) (loops : List (Option String))
    (agrees : ∀ before branch behind, branches = before ++ branch :: behind →
      (∀ earlier ∈ before, earlier.condition.isSome = true) →
        ∀ inner here, Written branch.block loops inner here →
          MarkAgrees context.annotations inner here) :
    writeBranches loops (branchesByLoops context branches) =
      writeBranches loops (branchWriters context branches) := by
  match branches with
  | [] => rfl
  | ⟨condition, block⟩ :: rest =>
    have first := writeByLoops_eq block loops
      (agrees [] ⟨condition, block⟩ rest rfl fun _ none => by cases none)
    rw [branchesByLoops, branchWriters]
    cases condition with
    | none => exact first
    | some condition =>
      have others := branchesByLoops_eq rest loops fun before branch behind given conditional =>
        agrees (⟨some condition, block⟩ :: before) branch behind (by rw [given]; rfl)
          (List.forall_mem_cons.mpr ⟨rfl, conditional⟩)
      rw [writeBranches, writeBranches, first, others]

end

end Trees

def writeDocumentByLoops (context : Context) (document : Document) : Gen Code :=
  match document.root with
  | none => return .ofSource "_c(\"div\")"
  | some root =>
    if root.head.tag == "script" then return .ofSource "null" else writeByLoops context root []

theorem writeDocumentByLoops_eq (context : Context) (document : Document)
    (agrees : ∀ root ∈ document.root, ∀ element loops, Written root [] element loops →
      MarkAgrees context.annotations element loops) :
    writeDocumentByLoops context document = writeDocument context document := by
  unfold writeDocumentByLoops writeDocument
  cases given : document.root with
  | none => rfl
  | some root =>
    have same := writeByLoops_eq context root [] (agrees root given)
    exact congrArg (fun write : Gen Code =>
      if root.head.tag == "script" then return .ofSource "null" else write) same

def programOf (write : Gen Code) : Program × List Diagnostic :=
  let (code, draft) := write.run .empty
  (⟨code.wrapped, draft.fragments⟩, draft.diagnostics)

/-- The program of a document whose writing looks at its own loops. -/
def generateByLoops (settings : Settings) (annotations : Annotations) (document : Document) :
    Program × List Diagnostic := programOf (writeDocumentByLoops ⟨settings, annotations⟩ document)

theorem generateByLoops_eq (settings : Settings) (annotations : Annotations) (document : Document)
    (agrees : ∀ root ∈ document.root, ∀ element loops, Written root [] element loops →
      MarkAgrees annotations element loops) :
    generateByLoops settings annotations document = generate settings annotations document :=
  congrArg programOf (writeDocumentByLoops_eq ⟨settings, annotations⟩ document agrees)

/-! ## Marks of the analysis -/

def BranchesApart (element : Element) : Prop :=
  element.branches = [] ∨ element.head.loop = none ∨ element.head.isOnce = true

instance : DecidablePred BranchesApart := fun element =>
  decidable_of_iff (element.branches.isEmpty = true ∨ element.head.loop.isNone = true ∨
      element.head.isOnce = true)
    (by simp [BranchesApart])

section Marks

variable {settings : Settings} {annotations : Annotations} {root element : Element}
  {loops inner : List (Option String)} {around : Surroundings}

def IsSheltered (settings : Settings) (around : Surroundings) (element : Element) : Prop :=
  RawElement element ∨ element.isStatic settings around.inTemplateLoop = true

theorem IsSheltered.child {parent child : Element} (sheltered : IsSheltered settings around parent)
    (settled : parent.IsSettled) (held : .element child ∈ parent.children) (flags : Flags) :
    IsSheltered settings (parent.head.surroundChildren around flags) child := by
  have raw (given : RawElement parent) : RawElement child := by
    obtain ⟨-, -, nodes, -⟩ := (rawElement_iff parent).mp given
    exact (rawNodes_iff _).mp nodes _ held
  rcases sheltered with given | isStatic
  · exact .inl (raw given)
  · cases verbatim : parent.head.isVerbatim with
    | true => exact .inl (raw (settled.raw verbatim))
    | false =>
      rw [Element.isStatic_eq, verbatim, Bool.false_or, Bool.and_eq_true, Bool.and_eq_true] at isStatic
      exact .inr (allStatic_iff.mp isStatic.1.2 _ held)

theorem IsSheltered.unbranched (sheltered : IsSheltered settings around element)
    (settled : element.IsSettled) : element.branches = [] := by
  rcases sheltered with raw | isStatic
  · exact ((rawElement_iff element).mp raw).2.2.2
  · exact settled.unbranched isStatic

theorem IsSheltered.isOnce (sheltered : IsSheltered settings around element)
    (settled : element.IsSettled) : element.head.isOnce = false := by
  rcases sheltered with raw | isStatic
  · exact ((rawElement_iff element).mp raw).1.isOnce
  · exact (settled.isFixed isStatic).isOnce

/-- What the analysis knows about the place of an element, of which writing knows
the loops. -/
structure Located (settings : Settings) (annotations : Annotations) (loops : List (Option String))
    (around : Surroundings) (element : Element) : Prop where
  settled : element.Throughout Element.IsSettled
  holds : annotations.Holds (element.annotate settings around)
  sheltered : around.underRoot = true → IsSheltered settings around element
  looped : around.inLoop = true → loops ≠ []

theorem Located.own (located : Located settings annotations loops around element) :
    element.IsSettled := (Element.throughout_iff.mp located.settled).1

theorem Located.sheltered_of_root (located : Located settings annotations loops around element)
    (under : (around.underRoot || (element.flags settings around).isRoot) = true) :
    IsSheltered settings around element := by
  rcases Bool.or_eq_true _ _ ▸ under with above | isRoot
  · exact located.sheltered above
  · simp only [Element.flags, Head.flags, Bool.and_eq_true] at isRoot
    exact .inr isRoot.1.2

theorem Located.child {child : Element} (located : Located settings annotations loops around element)
    (held : .element child ∈ element.children) :
    Located settings annotations (loopsInside element.head loops)
      (element.head.surroundChildren around (element.flags settings around)) child where
  settled := (Element.throughout_iff.mp located.settled).2.children child held
  holds := located.holds.child held
  sheltered := fun under => (located.sheltered_of_root under).child located.own held _
  looped := by
    intro inLoop
    simp only [Head.surroundChildren, Bool.or_eq_true] at inLoop
    unfold loopsInside
    split
    · exact List.cons_ne_nil _ _
    · next unlooped => exact located.looped (inLoop.resolve_right unlooped)

theorem Located.branch {branch : Branch} (located : Located settings annotations loops around element)
    (held : branch ∈ element.branches) :
    Located settings annotations (loopsBeside element.head loops)
      { around with underRoot := around.underRoot || (element.flags settings around).isRoot }
      branch.block where
  settled := (Element.throughout_iff.mp located.settled).2.branches branch held
  holds := located.holds.branch held
  sheltered := by
    intro under
    rw [(located.sheltered_of_root under).unbranched located.own] at held
    cases held
  looped := by
    intro inLoop
    unfold loopsBeside loopsInside
    split
    · exact located.looped inLoop
    · split
      · exact List.cons_ne_nil _ _
      · exact located.looped inLoop

/-- Each element that is written has a place, and where branches are apart from
loops, its loops are those of the place. -/
theorem Written.located (written : Written root loops element inner)
    (located : Located settings annotations loops around root) :
    ∃ here, Located settings annotations inner here element ∧
      (root.Throughout BranchesApart → (loops ≠ [] → around.inLoop = true) →
        inner ≠ [] → here.inLoop = true) := by
  induction written generalizing around with
  | here element loops => exact ⟨around, located, fun _ exact => exact⟩
  | @child parent child element loops inner held inside ih =>
    obtain ⟨here, below, exact⟩ := ih (located.child held)
    refine ⟨here, below, fun apart start => exact ?_ ?_⟩
    · exact (Element.throughout_iff.mp apart).2.children child held
    · intro nonempty
      simp only [Head.surroundChildren, Bool.or_eq_true]
      by_cases looped : parent.head.loop.isSome = true
      · exact .inr looped
      · rw [loopsInside, if_neg looped] at nonempty
        exact .inl (start nonempty)
  | @branch parent element before behind branch loops inner chosen given conditional beside ih =>
    have held : branch ∈ parent.branches := given ▸ List.mem_append_right _ List.mem_cons_self
    obtain ⟨here, below, exact⟩ := ih (located.branch held)
    refine ⟨here, below, fun apart start => exact ?_ ?_⟩
    · exact (Element.throughout_iff.mp apart).2.branches branch held
    · intro nonempty
      apply start
      rcases (Element.throughout_iff.mp apart).1 with unbranched | unlooped | once
      · rw [unbranched] at held
        cases held
      · simpa [loopsBeside, loopsInside, unlooped] using nonempty
      · simpa [loopsBeside, once] using nonempty

theorem Located.isInLoop (located : Located settings annotations loops around element)
    (asked : IsAsked annotations element.head) :
    (annotations.get element.head.id).isInLoop = around.inLoop := by
  unfold IsAsked at asked
  rw [located.holds.own] at asked ⊢
  simp only [Element.flags, Head.flags, Bool.and_eq_true, Bool.not_eq_true'] at asked ⊢
  rcases asked with isRoot | once
  · simp [isRoot.1.1, isRoot.1.2]
  · cases under : around.underRoot with
    | false => simp [once]
    | true =>
      have never := (located.sheltered under).isOnce located.own
      rw [once] at never
      cases never

end Marks

/-- No mark that is asked for claims a loop outside loops.  Where no element that
is repeated has branches, unless it is rendered once, the marks are those that
writing would give itself. -/
theorem compile_loopMarks (settings : Settings) (faithful : settings.IsFaithful)
    (keeps : ∀ extension ∈ settings.extensions, extension.KeepsNumber)
    (optimizes : settings.optimizes = true) (template : String) :
    let compiled := compile settings template
    (∀ root ∈ compiled.document.root, ∀ element loops, Written root [] element loops →
      IsAsked compiled.annotations element.head →
        (compiled.annotations.get element.head.id).isInLoop = true → loops ≠ []) ∧
    ((∀ root ∈ compiled.document.root, root.Throughout BranchesApart) →
      (∀ root ∈ compiled.document.root, ∀ element loops, Written root [] element loops →
        IsAsked compiled.annotations element.head →
          ((compiled.annotations.get element.head.id).isInLoop = true ↔ loops ≠ [])) ∧
      generateByLoops settings compiled.annotations compiled.document =
        generate settings compiled.annotations compiled.document) := by
  obtain ⟨parsed, annotated, -⟩ := compile_parts settings template
  have settled := parse_settled faithful (trimmed template)
  have holds := analyze_holds keeps (trimmed template)
  rw [← parsed] at settled holds
  rw [if_pos optimizes] at annotated
  rw [← annotated] at holds
  generalize compile settings template = compiled at *
  have place : ∀ root ∈ compiled.document.root, ∀ element loops, Written root [] element loops →
      ∃ here, Located settings compiled.annotations loops here element ∧
        (root.Throughout BranchesApart → loops ≠ [] → here.inLoop = true) := by
    intro root held element loops written
    have start : Located settings compiled.annotations [] ⟨false, false, false⟩ root :=
      ⟨settled root held, holds root held, (fun under => by cases under), fun inLoop => by cases inLoop⟩
    obtain ⟨here, located, exact⟩ := written.located start
    exact ⟨here, located, fun apart => exact apart fun none => absurd rfl none⟩
  have marked : ∀ root ∈ compiled.document.root, ∀ element loops, Written root [] element loops →
      IsAsked compiled.annotations element.head →
        (compiled.annotations.get element.head.id).isInLoop = true → loops ≠ [] := by
    intro root held element loops written asked isInLoop
    obtain ⟨here, located, -⟩ := place root held element loops written
    rw [located.isInLoop asked] at isInLoop
    exact located.looped isInLoop
  refine ⟨marked, fun apart => ?_⟩
  have both : ∀ root ∈ compiled.document.root, ∀ element loops, Written root [] element loops →
      IsAsked compiled.annotations element.head →
        ((compiled.annotations.get element.head.id).isInLoop = true ↔ loops ≠ []) := by
    intro root held element loops written asked
    refine ⟨marked root held element loops written asked, fun nonempty => ?_⟩
    obtain ⟨here, located, exact⟩ := place root held element loops written
    rw [located.isInLoop asked]
    exact exact (apart root held) nonempty
  refine ⟨both, generateByLoops_eq settings _ _ ?_⟩
  intro root held element loops written asked
  rw [Bool.eq_iff_iff, both root held element loops written asked]
  simp

/-- A root in a loop, and one in a branch that is outside the loops. -/
def markedLoops : String :=
  "<ul><li v-for=\"x in xs\" :key=\"x\"><b>s</b><i v-once>{{ x }}</i></li><p v-if=\"y\">{{ y }}</p><u v-else>z</u></ul>"

theorem markedLoops_loopMarks :
    (Web.settings.overlaid .empty).IsFaithful ∧
      (∀ extension ∈ (Web.settings.overlaid .empty).extensions, extension.KeepsNumber) ∧
      (Web.settings.overlaid .empty).optimizes = true ∧
      (∀ root ∈ (compile (Web.settings.overlaid .empty) markedLoops).document.root,
        root.Throughout BranchesApart) ∧
      (compile (Web.settings.overlaid .empty) markedLoops).annotations.table.map Flags.isInLoop =
        [false, false, true, false, true, false, false, false, false, false] ∧
      ∀ root ∈ (compile (Web.settings.overlaid .empty) markedLoops).document.root,
        ∀ element loops, Written root [] element loops →
          IsAsked (compile (Web.settings.overlaid .empty) markedLoops).annotations element.head →
            (((compile (Web.settings.overlaid .empty) markedLoops).annotations.get
              element.head.id).isInLoop = true ↔ loops ≠ []) := by
  have faithful : (Web.settings.overlaid .empty).IsFaithful := bare_isFaithful (.inl rfl) rfl
  have keeps : ∀ extension ∈ (Web.settings.overlaid .empty).extensions, extension.KeepsNumber :=
    bare_keepsNumber (.inl rfl) rfl
  have apart : ∀ root ∈ (compile (Web.settings.overlaid .empty) markedLoops).document.root,
      root.Throughout BranchesApart := by decide +kernel
  have table : (compile (Web.settings.overlaid .empty) markedLoops).annotations.table.map
      Flags.isInLoop =
        [false, false, true, false, true, false, false, false, false, false] := by decide +kernel
  have marks := compile_loopMarks (Web.settings.overlaid .empty) faithful keeps rfl markedLoops
  exact ⟨faithful, keeps, rfl, apart, table, (marks.2 apart).1⟩

/-- A branch of an element that is repeated, without a mark in its loop. -/
def branchOfLoop : String :=
  "<ul><li v-for=\"x in xs\" v-if=\"x\"></li><b v-else>s</b></ul>"

theorem branchOfLoop_unmarked :
    let compiled := compile Web.settings branchOfLoop
    (generate Web.settings compiled.annotations compiled.document).1.render.text =
        "with(this)\x7breturn _c('ul',_l((xs),function(x)\x7breturn (x)?_c('li'):_m(0)\x7d))\x7d" ∧
      (generateByLoops Web.settings compiled.annotations compiled.document).1.render.text =
        "with(this)\x7breturn _c('ul',_l((xs),function(x)\x7breturn (x)?_c('li'):_m(0,true)\x7d))\x7d" := by
  decide +kernel

end Templating.Rendering
