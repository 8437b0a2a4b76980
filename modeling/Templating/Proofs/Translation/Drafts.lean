import Templating.Proofs.Template.Lineage
import Templating.Rendering.Generator
/-!
# What writing does to a draft

Writing goes through the tree in one order and touches the draft in few places: it reports,
keeps fragments and hands out numbers.  A transition is a row of such steps.  It tells which
elements are hoisted on the way and which calls and numbers are in the code that is written;
the texts between them do not count.

Every document is written by a transition, so what is to be shown of programs and reports is
an induction on transitions, with one case for each kind of step.
-/
set_option autoImplicit false

namespace Templating.Rendering

open Templating.Text Templating.Template

/-! ## Calls and numbers in code -/

/-- The code without its texts. -/
def Code.marks (code : Code) : Code :=
  code.filter fun piece =>
    match piece with
    | .source _ => false
    | _ => true

section Marks

variable {code : Code}

@[simp] theorem Code.marks_nil : Code.marks [] = [] := rfl

@[simp] theorem Code.marks_append (first second : Code) :
    Code.marks (first ++ second) = first.marks ++ second.marks := List.filter_append ..

@[simp] theorem Code.marks_source (text : String) (rest : Code) :
    Code.marks (.source text :: rest) = rest.marks := rfl

@[simp] theorem Code.marks_fragment (index : Nat) (inLoop : Bool) (rest : Code) :
    Code.marks (.fragment index inLoop :: rest) = .fragment index inLoop :: rest.marks := rfl

@[simp] theorem Code.marks_onceId (id : Nat) (rest : Code) :
    Code.marks (.onceId id :: rest) = .onceId id :: rest.marks := rfl

theorem commaSeparated_marks (codes : List Code) :
    (Code.commaSeparated codes).marks = Code.marks codes.flatten := by
  induction codes with
  | nil => rfl
  | cons code rest ih =>
    cases rest with
    | nil => simp [Code.commaSeparated]
    | cons next others => simp [Code.commaSeparated, ih]

theorem wrapped_marks (code : Code) : code.wrapped.marks = code.marks := by simp [Code.wrapped]

theorem outletCode_marks (head : Head) (inner : Option Code) :
    (outletCode head inner).marks = Code.marks (inner.getD []) := by
  unfold outletCode
  cases inner with
  | none =>
    dsimp only
    split <;> rfl
  | some code => simp

theorem furtherArgument_marks (inner : Option Code) :
    (furtherArgument inner).marks = Code.marks (inner.getD []) := by
  cases inner <;> rfl

end Marks

/-! ## Elements with fragments -/

def Layer.hoisted (own : Element) (beside inner : List Element) : Layer → List Element
  | .hoist => inner ++ [own]
  | .once => inner
  | .loop => inner
  | .choose => inner ++ beside

mutual

/-- The elements for which fragments are kept while the element is written, in
the order of the fragments. -/
def hoisted (annotations : Annotations) : Element → List Element
  | ⟨head, children, branches⟩ =>
    (layers (annotations.get head.id) head).foldr
      (fun layer inner =>
        layer.hoisted ⟨head, children, branches⟩ (hoistedOfBranches annotations branches) inner)
      (hoistedOfNodes annotations children)

def hoistedOfNodes (annotations : Annotations) : List Node → List Element
  | [] => []
  | .element element :: rest => hoisted annotations element ++ hoistedOfNodes annotations rest
  | .text _ :: rest => hoistedOfNodes annotations rest
  | .comment _ :: rest => hoistedOfNodes annotations rest

def hoistedOfBranches (annotations : Annotations) : List Branch → List Element
  | [] => []
  | ⟨some _, block⟩ :: rest => hoisted annotations block ++ hoistedOfBranches annotations rest
  | ⟨none, block⟩ :: _ => hoisted annotations block

end

/-- In place of a script nothing is written. -/
def hoistedOfDocument (annotations : Annotations) (document : Document) : List Element :=
  match document.root with
  | none => []
  | some root => if root.head.tag == "script" then [] else hoisted annotations root

/-- The fragment is what is written for the element inside the layer that hoists
it. -/
def IsFragmentOf (context : Context) (element : Element) (fragment : Code) : Prop :=
  ∃ outer inner, layers (context.annotations.get element.head.id) element.head =
      outer ++ .hoist :: inner ∧
    ∃ (loops : List (Option String)) (draft : Draft),
      fragment = (((inner.foldr (fun layer inside =>
          layer.write context element.head (branchWriters context element.branches) inside)
        (writeCore context element.head element.children (nodeWriters context element.children)))
          loops).run draft).1.wrapped

/-! ## Transitions -/

/-- What is reported when the element itself is written. -/
inductive IsReportOf (context : Context) (head : Head) : List Diagnostic → Prop where
  | directives : IsReportOf context head (directiveDiagnostics context.settings head)
  | unkeyed : IsReportOf context head [.errorAt head.span .unkeyedOnce]
  | loop {header : Loop} (given : head.loop = some header) :
    IsReportOf context head (loopDiagnostics context.settings head header)

/-- Steps from one draft to another, while elements of which `among` holds are written: the
elements that are hoisted, and the marks of the code that is written. -/
inductive Transition (context : Context) (among : Element → Prop) :
    List Element → Draft → Code → Draft → Prop where
  | nothing (draft : Draft) : Transition context among [] draft [] draft
  | append {first second : List Element} {before between after : Draft} {gained further : Code}
      (one : Transition context among first before gained between)
      (two : Transition context among second between further after) :
    Transition context among (first ++ second) before (gained ++ further) after
  | report {element : Element} {diagnostics : List Diagnostic} (held : among element)
      (own : IsReportOf context element.head diagnostics) (draft : Draft) :
    Transition context among [] draft []
      { draft with diagnostics := draft.diagnostics ++ diagnostics }
  /-- The marks of the fragment are moved away, and its call is left in their place. -/
  | fragment {element : Element} {elements : List Element} {before after : Draft} {code : Code}
      (held : among element) (own : IsFragmentOf context element code.wrapped)
      (inner : Transition context among elements before code.marks after) (inLoop : Bool) :
    Transition context among (elements ++ [element]) before
      [.fragment after.fragments.length inLoop]
      { after with fragments := after.fragments ++ [code.wrapped] }
  | number (draft : Draft) :
    Transition context among [] draft [.onceId draft.onceCount]
      { draft with onceCount := draft.onceCount + 1 }

theorem Transition.fragments {context : Context} {among : Element → Prop} {elements : List Element}
    {before after : Draft} {gained : Code}
    (transition : Transition context among elements before gained after) :
    ∃ added, after.fragments = before.fragments ++ added ∧
      List.Forall₂ (IsFragmentOf context) elements added := by
  induction transition with
  | nothing draft => exact ⟨[], (List.append_nil _).symm, .nil⟩
  | append one two first second =>
    obtain ⟨added, grown, matched⟩ := first
    obtain ⟨further, final, others⟩ := second
    refine ⟨added ++ further, ?_, List.rel_append matched others⟩
    rw [final, grown, List.append_assoc]
  | report held own draft => exact ⟨[], (List.append_nil _).symm, .nil⟩
  | @fragment element elements before after code held own inner inLoop ih =>
    obtain ⟨added, grown, matched⟩ := ih
    refine ⟨added ++ [code.wrapped], ?_, List.rel_append matched (.cons own .nil)⟩
    rw [grown, List.append_assoc]
  | number draft => exact ⟨[], (List.append_nil _).symm, .nil⟩

/-! ## Steps that write -/

/-- From every draft the step is a transition, which adds to the marks that are at hand. -/
def Transits (context : Context) (among : Element → Prop) {α : Type} (held : Code)
    (elements : List Element) (write : Gen α) (marksOf : α → Code) : Prop :=
  ∀ draft, ∃ gained, marksOf (write.run draft).1 = held ++ gained ∧
    Transition context among elements draft gained (write.run draft).2

def WriterTransits (context : Context) (among : Element → Prop) (write : Writer)
    (elements : List Element) : Prop :=
  ∀ loops, Transits context among [] elements (write loops) Code.marks

section Transits

variable {context : Context} {among : Element → Prop} {α β : Type} {held : Code}
  {first second : List Element} {marksOf : α → Code} {finalOf : β → Code}

theorem Transits.pure {result : α} (same : marksOf result = held) :
    Transits context among held [] (return result) marksOf :=
  fun draft => ⟨[], same.trans (List.append_nil held).symm, .nothing draft⟩

theorem Transits.bind {write : Gen α} {next : α → Gen β}
    (one : Transits context among held first write marksOf)
    (two : ∀ result, Transits context among (marksOf result) second (next result) finalOf) :
    Transits context among held (first ++ second) (write >>= next) finalOf := by
  intro draft
  obtain ⟨gained, here, transition⟩ := one draft
  obtain ⟨further, whole, following⟩ := two (write.run draft).1 (write.run draft).2
  refine ⟨gained ++ further, ?_, transition.append following⟩
  rw [← List.append_assoc, ← here]
  exact whole

theorem Transits.map {write : Gen α} {next : α → Gen β}
    (one : Transits context among held first write marksOf)
    (two : ∀ result, Transits context among (marksOf result) [] (next result) finalOf) :
    Transits context among held first (write >>= next) finalOf := by
  have both := one.bind two
  rwa [List.append_nil] at both

theorem Transits.after {write : Gen α} (one : Transits context among [] first write marksOf)
    (before : Code) :
    Transits context among before first write fun result => before ++ marksOf result := by
  intro draft
  obtain ⟨gained, same, transition⟩ := one draft
  exact ⟨gained, congrArg (before ++ ·) same, transition⟩

theorem Transits.report {element : Element} {diagnostics : List Diagnostic}
    (inside : among element) (own : IsReportOf context element.head diagnostics) :
    Transits context among held [] (Gen.report diagnostics) fun _ => held :=
  fun draft => ⟨[], (List.append_nil held).symm, .report inside own draft⟩

theorem Transits.nextOnce :
    Transits context among held [] Gen.nextOnce fun id => held ++ [.onceId id] :=
  fun draft => ⟨[.onceId draft.onceCount], rfl, .number draft⟩

end Transits

/-! ## Writers -/

section Writers

variable {context : Context} {among : Element → Prop}

theorem codes_transit {writers : List Writer} {elements : List (List Element)}
    (transit : List.Forall₂ (WriterTransits context among) writers elements)
    (loops : List (Option String)) :
    Transits context among [] elements.flatten (writers.mapM fun writer => writer loops)
      fun codes => Code.marks codes.flatten := by
  induction transit with
  | nil => exact .pure rfl
  | cons first others ih =>
    rw [List.mapM_cons, List.flatten_cons]
    exact (first loops).bind fun code => (ih.after code.marks).map fun codes => .pure (by simp)

theorem children_transit {writers : List Writer} {elements : List (List Element)}
    (transit : List.Forall₂ (WriterTransits context among) writers elements) (children : List Node)
    (loops : List (Option String)) :
    Transits context among [] elements.flatten (writeChildren children writers loops)
      fun inner => Code.marks (inner.getD []) := by
  refine (codes_transit transit loops).map fun codes => ?_
  split
  · next empty =>
    rw [List.isEmpty_iff.mp empty]
    exact .pure rfl
  · split
    · exact .pure rfl
    · exact .pure (by simp [commaSeparated_marks])

theorem core_transits {own : Element} (inside : among own) {children : List Node}
    {writers : List Writer} {elements : List (List Element)}
    (transit : List.Forall₂ (WriterTransits context among) writers elements) :
    WriterTransits context among (writeCore context own.head children writers) elements.flatten := by
  intro loops
  have inner := children_transit transit children loops
  have data : Transits context among [] [] (writeData context own.head loops) fun _ => [] :=
    (Transits.report inside .directives).map fun _ => .pure rfl
  unfold writeCore
  split
  · refine inner.map fun written => .pure ?_
    cases written <;> rfl
  · split
    · exact inner.map fun written => .pure (outletCode_marks own.head written)
    · refine data.bind fun object => inner.map fun written => ?_
      split <;> exact .pure (by simp [furtherArgument_marks])

theorem layers_transit {own : Element} (inside : among own) (outer : List Layer) {rest : List Layer}
    (around : layers (context.annotations.get own.head.id) own.head = outer ++ rest)
    {beside : List Element}
    (branches : WriterTransits context among
      (fun loops => writeBranches loops (branchWriters context own.branches)) beside)
    {elements : List Element}
    (core : WriterTransits context among
      (writeCore context own.head own.children (nodeWriters context own.children)) elements) :
    WriterTransits context among
      (rest.foldr (fun layer inside =>
          layer.write context own.head (branchWriters context own.branches) inside)
        (writeCore context own.head own.children (nodeWriters context own.children)))
      (rest.foldr (fun layer inner => layer.hoisted own beside inner) elements) := by
  induction rest generalizing outer with
  | nil => exact core
  | cons layer rest ih =>
    have below := ih (outer ++ [layer]) (by simpa using around)
    intro loops
    rw [List.foldr_cons, List.foldr_cons]
    generalize rest.foldr (fun layer inner => layer.hoisted own beside inner) elements = kept
      at below ⊢
    cases layer with
    | hoist =>
      -- the fragment is told by the layers inside this one, so they stay as they are here
      intro draft
      obtain ⟨gained, same, transition⟩ := below loops draft
      rw [List.nil_append] at same
      rw [← same] at transition
      exact ⟨_, rfl, .fragment inside ⟨outer, rest, around, loops, draft, rfl⟩ transition _⟩
    | once =>
      generalize rest.foldr _ _ = inner at below ⊢
      simp only [Layer.write, Layer.hoisted]
      split
      · exact (below loops).map fun code => Transits.nextOnce.map fun id => .pure (by simp)
      · exact (Transits.report inside .unkeyed).bind fun _ => below loops
    | loop =>
      generalize rest.foldr _ _ = inner at below ⊢
      simp only [Layer.write, Layer.hoisted]
      split
      · next header given =>
        exact (Transits.report inside (.loop given)).bind fun _ =>
          (below _).map fun body => .pure (by simp)
      · exact below loops
    | choose =>
      exact (below loops).bind fun block =>
        ((branches loops).after block.marks).map fun others => .pure (by simp)

end Writers

/-! ## Trees -/

section Trees

variable {context : Context} {among : Element → Prop}

mutual

theorem element_transits (element : Element) (all : element.Throughout among) :
    WriterTransits context among (writeElement context element)
      (hoisted context.annotations element) := by
  match element with
  | ⟨head, children, branches⟩ =>
    obtain ⟨own, below⟩ := Element.throughout_iff.mp all
    obtain ⟨elements, transit, same⟩ := nodes_transit children below.children
    rw [writeElement, hoisted, ← same]
    exact layers_transit own [] rfl (branches_transit branches below.branches)
      (core_transits own transit)

theorem nodes_transit (nodes : List Node)
    (all : ∀ child, .element child ∈ nodes → child.Throughout among) :
    ∃ elements, List.Forall₂ (WriterTransits context among) (nodeWriters context nodes) elements ∧
      elements.flatten = hoistedOfNodes context.annotations nodes := by
  match nodes with
  | [] => exact ⟨[], .nil, rfl⟩
  | node :: rest =>
    obtain ⟨elements, transit, same⟩ :=
      nodes_transit rest fun child held => all child (List.mem_cons_of_mem node held)
    match node with
    | .element element =>
      have first := element_transits element (all element List.mem_cons_self)
      refine ⟨hoisted context.annotations element :: elements, .cons first transit, ?_⟩
      rw [List.flatten_cons, same, hoistedOfNodes]
    | .text run => exact ⟨[] :: elements, .cons (fun _ => .pure rfl) transit, same⟩
    | .comment comment => exact ⟨[] :: elements, .cons (fun _ => .pure rfl) transit, same⟩

theorem branches_transit (branches : List Branch)
    (all : ∀ branch ∈ branches, branch.block.Throughout among) :
    WriterTransits context among
      (fun loops => writeBranches loops (branchWriters context branches))
      (hoistedOfBranches context.annotations branches) := by
  intro loops
  match branches with
  | [] => exact .pure rfl
  | ⟨condition, block⟩ :: rest =>
    obtain ⟨here, others⟩ := List.forall_mem_cons.mp all
    have first := element_transits block here loops
    match condition with
    | none => exact first
    | some condition =>
      have behind := branches_transit rest others loops
      exact first.bind fun code => (behind.after code.marks).map fun others => .pure (by simp)

end

theorem document_transits {document : Document}
    (all : ∀ root ∈ document.root, root.Throughout among) :
    Transits context among [] (hoistedOfDocument context.annotations document)
      (writeDocument context document) Code.marks := by
  unfold writeDocument hoistedOfDocument
  cases given : document.root with
  | none => exact .pure rfl
  | some root =>
    dsimp only
    split
    · exact .pure rfl
    · exact element_transits root (all root given) []

end Trees

/-- One transition from the empty draft gives the program of a document and what is reported. -/
theorem generate_transition {among : Element → Prop} (settings : Settings)
    (annotations : Annotations) {document : Document}
    (all : ∀ root ∈ document.root, root.Throughout among) :
    let generated := generate settings annotations document
    ∃ after, Transition ⟨settings, annotations⟩ among (hoistedOfDocument annotations document)
        .empty generated.1.render.marks after ∧
      generated.1.fragments = after.fragments ∧ generated.2 = after.diagnostics := by
  intro generated
  have transits : Transits ⟨settings, annotations⟩ among [] (hoistedOfDocument annotations document)
      (writeDocument ⟨settings, annotations⟩ document) Code.marks := document_transits all
  obtain ⟨gained, same, transition⟩ := transits .empty
  have marks : generated.1.render.marks = gained := (wrapped_marks _).trans same
  exact ⟨_, marks ▸ transition, rfl, rfl⟩

end Templating.Rendering
