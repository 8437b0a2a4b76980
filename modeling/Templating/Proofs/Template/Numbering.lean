import Mathlib.Algebra.GroupWithZero.Nat
import Mathlib.Data.List.Flatten
import Templating.Proofs.Template.Reading
import Templating.Proofs.Template.Rules
import Templating.Template.Analysis
/-!
# Numbers of nodes

No two nodes of a document have the same number, so that the flags found for a
node are the flags that are looked up for it.  While a template is read, each
number below the next one is in use at most once.
-/
set_option autoImplicit false

namespace Templating.Template

open Templating.Text Templating.Data Templating.Markup

/-! ## The numbers in a tree -/

mutual

def Element.numbers : Element → List Nat
  | ⟨head, children, branches⟩ =>
    head.id :: numbersOfNodes children ++ numbersOfBranches branches

def Node.numbers : Node → List Nat
  | .element element => element.numbers
  | .text run => [run.id]
  | .comment comment => [comment.id]

def numbersOfNodes : List Node → List Nat
  | [] => []
  | node :: rest => node.numbers ++ numbersOfNodes rest

def numbersOfBranches : List Branch → List Nat
  | [] => []
  | ⟨_, block⟩ :: rest => block.numbers ++ numbersOfBranches rest

end

theorem numbersOfNodes_eq (nodes : List Node) : numbersOfNodes nodes = nodes.flatMap Node.numbers := by
  induction nodes with
  | nil => rfl
  | cons node rest ih => rw [numbersOfNodes, ih, List.flatMap_cons]

theorem numbersOfNodes_append (nodes others : List Node) :
    numbersOfNodes (nodes ++ others) = numbersOfNodes nodes ++ numbersOfNodes others := by
  simp only [numbersOfNodes_eq, List.flatMap_append]

theorem numbersOfBranches_append (branches others : List Branch) :
    numbersOfBranches (branches ++ others) =
      numbersOfBranches branches ++ numbersOfBranches others := by
  induction branches with
  | nil => rfl
  | cons branch rest ih =>
    obtain ⟨condition, block⟩ := branch
    simp only [List.cons_append, numbersOfBranches, ih, List.append_assoc]

theorem Element.numbers_eq (element : Element) :
    element.numbers =
      element.head.id :: numbersOfNodes element.children ++ numbersOfBranches element.branches := by
  obtain ⟨head, children, branches⟩ := element
  rw [Element.numbers]

def Element.uses (number : Nat) (element : Element) : Nat := element.numbers.count number

def usesOfNodes (number : Nat) (nodes : List Node) : Nat := (numbersOfNodes nodes).count number

def usesOfBranches (number : Nat) (branches : List Branch) : Nat :=
  (numbersOfBranches branches).count number

section Uses

variable (number : Nat)

theorem Element.uses_eq (element : Element) :
    element.uses number = usesOfNodes number element.children +
      usesOfBranches number element.branches + if element.head.id = number then 1 else 0 := by
  simp only [Element.uses, Element.numbers_eq, usesOfNodes, usesOfBranches, List.cons_append,
    List.count_cons, List.count_append, beq_iff_eq]

theorem usesOfNodes_append (nodes others : List Node) :
    usesOfNodes number (nodes ++ others) = usesOfNodes number nodes + usesOfNodes number others := by
  rw [usesOfNodes, numbersOfNodes_append, List.count_append, usesOfNodes, usesOfNodes]

theorem usesOfNodes_element (element : Element) :
    usesOfNodes number [.element element] = element.uses number := by
  simp [usesOfNodes, numbersOfNodes, Node.numbers, Element.uses]

theorem usesOfNodes_cons (element : Element) (nodes : List Node) :
    usesOfNodes number (.element element :: nodes) =
      element.uses number + usesOfNodes number nodes := by
  simp [usesOfNodes, numbersOfNodes, Node.numbers, Element.uses]

theorem usesOfNodes_reverse (nodes : List Node) :
    usesOfNodes number nodes.reverse = usesOfNodes number nodes := by
  simp only [usesOfNodes, numbersOfNodes_eq]
  exact ((List.reverse_perm nodes).flatMap_right Node.numbers).count_eq number

theorem usesOfNodes_sublist {nodes others : List Node} (fewer : nodes.Sublist others) :
    usesOfNodes number nodes ≤ usesOfNodes number others := by
  simp only [usesOfNodes, numbersOfNodes_eq]
  exact (fewer.flatMap Node.numbers).count_le number

theorem dropToElement_sublist (nodes : List Node) : (dropToElement nodes).1.Sublist nodes := by
  induction nodes with
  | nil => exact List.Sublist.refl _
  | cons first earlier ih =>
    cases first with
    | text run => exact ih.cons _
    | comment comment => exact ih.cons _
    | element element => exact List.Sublist.refl _

theorem usesOfBranches_concat (branches : List Branch) (branch : Element) :
    usesOfBranches number (branches ++ [branch.asBranch]) =
      usesOfBranches number branches + branch.uses number := by
  rw [usesOfBranches, numbersOfBranches_append, List.count_append, usesOfBranches]
  simp only [numbersOfBranches, Element.asBranch, List.append_nil, Element.numbers_eq, Element.uses]

theorem addBranch_uses (previous branch : Element) :
    (previous.addBranch branch).uses number = previous.uses number + branch.uses number := by
  obtain ⟨head, children, branches⟩ := previous
  rw [Element.uses_eq number ⟨head, children, branches⟩, Element.addBranch, Element.uses_eq,
    usesOfBranches_concat]
  simp only
  omega

theorem addChild_uses (parent element : Element) :
    (parent.addChild (.element element)).uses number = parent.uses number + element.uses number := by
  obtain ⟨head, children, branches⟩ := parent
  rw [Element.uses_eq number ⟨head, children, branches⟩, Element.addChild, Element.uses_eq,
    usesOfNodes_append, usesOfNodes_element]
  simp only
  omega

theorem attachBranch_uses (parent branch : Element) :
    (attachBranch parent branch).1.uses number ≤ parent.uses number + branch.uses number := by
  have fewer := usesOfNodes_sublist number (dropToElement_sublist parent.children.reverse)
  rw [usesOfNodes_reverse] at fewer
  unfold attachBranch
  simp only
  generalize (dropToElement parent.children.reverse).2 = diagnostics
  generalize (dropToElement parent.children.reverse).1 = backwards at fewer ⊢
  have kept : ({ parent with children := backwards.reverse } : Element).uses number ≤
      parent.uses number + branch.uses number := by
    rw [Element.uses_eq, Element.uses_eq number parent, usesOfNodes_reverse]
    simp only
    omega
  split
  · next previous earlier =>
    split
    · rw [Element.uses_eq, Element.uses_eq number parent, usesOfNodes_reverse, usesOfNodes_cons,
        addBranch_uses]
      rw [usesOfNodes_cons] at fewer
      simp only
      omega
    · exact kept
  · exact kept

end Uses

/-! ## The numbers in use while reading -/

namespace Builder

def uses (number : Nat) (builder : Builder) : Nat :=
  (builder.opened.map (Element.uses number)).sum +
    (builder.root.map (Element.uses number)).getD 0

/-- Each number below the next one is in use at most once, and no other is. -/
def Numbered (builder : Builder) : Prop :=
  ∀ number, builder.uses number ≤ if number < builder.nextId then 1 else 0

theorem Numbered.next {builder after : Builder} (numbered : builder.Numbered)
    (next : after.nextId = builder.nextId + 1)
    (uses : ∀ number, after.uses number ≤
      builder.uses number + if builder.nextId = number then 1 else 0) : after.Numbered := by
  intro number
  have before := numbered number
  have most := uses number
  rw [next]
  split at before <;> split at most <;> split <;> omega

theorem Numbered.fewer {builder after : Builder} (numbered : builder.Numbered)
    (next : after.nextId = builder.nextId)
    (uses : ∀ number, after.uses number ≤ builder.uses number) : after.Numbered := by
  intro number
  rw [next]
  exact (uses number).trans (numbered number)

theorem uses_cons {builder : Builder} {element : Element} {outer : List Element}
    (opened : builder.opened = element :: outer) (number : Nat) :
    builder.uses number = element.uses number + uses number { builder with opened := outer } := by
  simp only [uses, opened, List.map_cons, List.sum_cons]
  omega

theorem uses_place (builder : Builder) (element : Element) (number : Nat) :
    (builder.place element).uses number ≤ element.uses number + builder.uses number := by
  unfold place
  cases opened : builder.opened with
  | cons parent outer =>
    rw [uses_cons opened]
    simp only
    split
    · rw [uses_cons opened]
      omega
    · split
      · have joined := attachBranch_uses number parent element
        simp only [report, uses, List.map_cons, List.sum_cons]
        omega
      · simp only [uses, List.map_cons, List.sum_cons, addChild_uses]
        omega
  | nil =>
    simp only
    split
    · next none =>
      simp only [uses, opened, none, List.map_nil, List.sum_nil, Option.map_some, Option.getD_some]
      omega
    · next previous held =>
      split
      · simp only [report, uses, opened, held, Option.map_some, Option.getD_some, addBranch_uses]
        omega
      · simp only [report, uses]
        omega

section Closing

variable {settings : Settings}

theorem close_nextId (builder : Builder) (element : Element) :
    (builder.close settings element).nextId = builder.nextId := by
  simp [close, leave, place_nextId, report]

variable (keeps : ∀ extension ∈ settings.extensions, extension.KeepsNumber)

include keeps

theorem uses_close (builder : Builder) (element : Element) (number : Nat) :
    (builder.close settings element).uses number ≤ element.uses number + builder.uses number := by
  obtain ⟨closed, diagnostics, closes, same⟩ := close_eq settings builder element
  have placed := uses_place (builder.report diagnostics) closed number
  have children := usesOfNodes_sublist number closes.children
  have fewer : closed.uses number ≤ element.uses number := by
    rw [Element.uses_eq, Element.uses_eq number element, closes.branches,
      closes.field (fun leaves => leaves.id) keeps]
    omega
  rw [same]
  simp only [leave, uses, report] at placed ⊢
  omega

theorem Numbered.closeUnmatched {builder : Builder} (numbered : builder.Numbered) :
    (builder.closeUnmatched settings).Numbered := by
  unfold Builder.closeUnmatched
  split
  · exact numbered
  · next element outer given =>
    refine numbered.fewer (close_nextId _ _) fun number => ?_
    rw [uses_cons given]
    exact uses_close keeps _ element number

theorem Numbered.closeAllUnmatched {builder : Builder} (numbered : builder.Numbered)
    (count : Nat) : (builder.closeAllUnmatched settings count).Numbered := by
  induction count generalizing builder with
  | zero => exact numbered
  | succ count ih => exact ih (numbered.closeUnmatched keeps)

theorem Numbered.closeMatched {builder : Builder} (numbered : builder.Numbered) (stop : Nat) :
    (builder.closeMatched settings stop).Numbered := by
  unfold Builder.closeMatched
  split
  · exact numbered
  · next element outer given =>
    refine numbered.fewer (close_nextId _ _) fun number => ?_
    rw [uses_cons given]
    refine (uses_close keeps _ _ number).trans ?_
    rw [Element.uses_eq, Element.uses_eq number element]

theorem Numbered.closeThrough {builder : Builder} (numbered : builder.Numbered) (tag : String)
    (span : Span) : (builder.closeThrough settings tag span).Numbered := by
  unfold Builder.closeThrough
  split
  · exact numbered
  · exact (numbered.closeAllUnmatched keeps _).closeMatched keeps _

theorem Numbered.closeBefore {builder : Builder} (numbered : builder.Numbered) (tag : String)
    (span : Span) : (builder.closeBefore settings tag span).Numbered := by
  have outside : (if (builder.opened.head?.any fun element => element.head.tag == "p") &&
      settings.platform.isNonPhrasing tag then
        builder.closeThrough settings "p" ⟨span.start, span.start⟩ else builder).Numbered := by
    split
    · exact numbered.closeThrough keeps _ _
    · exact numbered
  unfold Builder.closeBefore
  simp only
  generalize (if (builder.opened.head?.any fun element => element.head.tag == "p") &&
    settings.platform.isNonPhrasing tag then
      builder.closeThrough settings "p" ⟨span.start, span.start⟩ else builder) = before at outside ⊢
  split
  · exact outside.closeThrough keeps _ _
  · exact outside

/-! ## Tokens -/

omit keeps in
theorem Numbered.spend {builder after : Builder} (numbered : builder.Numbered)
    (next : after.nextId = builder.nextId + 1)
    (uses : ∀ number, after.uses number = builder.uses number) : after.Numbered :=
  numbered.next next fun number => by rw [uses]; omega

theorem open_numbered {outside inside : Builder} (numbered : outside.Numbered)
    (next : inside.nextId = outside.nextId + 1)
    (unchanged : ∀ number, inside.uses number = outside.uses number) {element : Element}
    (number : element.head.id = outside.nextId) (leaf : element.children = [] ∧ element.branches = [])
    (closes : Bool) :
    (if closes then inside.close settings element
      else { inside with opened := element :: inside.opened }).Numbered := by
  have single (other : Nat) : element.uses other = if outside.nextId = other then 1 else 0 := by
    rw [Element.uses_eq, ← number, leaf.1, leaf.2]
    simp [usesOfNodes, usesOfBranches, numbersOfNodes, numbersOfBranches]
  cases closes with
  | true =>
    refine numbered.next ((close_nextId inside element).trans next) fun other => ?_
    have closed := uses_close keeps inside element other
    rw [single, unchanged, Nat.add_comm] at closed
    exact closed
  | false =>
    refine numbered.next next fun other => ?_
    have opened : Builder.uses other { inside with opened := element :: inside.opened } =
        element.uses other + inside.uses other := uses_cons rfl other
    rw [if_neg (by simp), opened, single, unchanged, Nat.add_comm]

theorem Numbered.startTag {builder : Builder} (numbered : builder.Numbered) (tag : String)
    (attributes : List SourceAttribute) (selfClosing : Bool) (span : Span) :
    (builder.startTag settings tag attributes selfClosing span).Numbered := by
  have outsideNumbered := numbered.closeBefore keeps tag span
  unfold Builder.startTag
  simp only
  generalize builder.closeBefore settings tag span = outside at outsideNumbered ⊢
  have same := enter_keeps outside
    (outside.freshHead settings tag (distinctAttributes tag [] attributes).1 span)
  refine open_numbered keeps outsideNumbered ?_ (fun _ => ?_) same.id ⟨rfl, rfl⟩ _
  · rfl
  · rfl

theorem Numbered.endTag {builder : Builder} (numbered : builder.Numbered) (tag : String)
    (span : Span) : (builder.endTag settings tag span).Numbered := by
  unfold Builder.endTag
  split
  · exact numbered.closeThrough keeps _ _
  · split
    · refine numbered.next (close_nextId _ _) fun number => ?_
      refine (uses_close keeps _ _ number).trans ?_
      rw [Element.uses_eq]
      simp [usesOfNodes, usesOfBranches, numbersOfNodes, numbersOfBranches, Head.new, uses,
        Nat.add_comm]
    · split
      · exact (numbered.startTag keeps "p" [] false span).closeThrough keeps _ _
      · exact numbered.fewer rfl fun _ => Nat.le_refl _

omit keeps in
theorem Numbered.leaf {builder after : Builder} (numbered : builder.Numbered) {node : Node}
    (number : node.numbers = [builder.nextId]) (next : after.nextId = builder.nextId + 1)
    (same : ∀ other, after.uses other = builder.uses other) :
    (after.updateParent fun element => element.addChild node).Numbered := by
  unfold Builder.updateParent
  split
  · exact numbered.spend next same
  · next parent outer given =>
    refine numbered.next next fun other => ?_
    rw [← same, uses_cons given, uses_cons rfl]
    obtain ⟨head, children, branches⟩ := parent
    simp only [Element.addChild]
    rw [Element.uses_eq, Element.uses_eq other ⟨head, children, branches⟩, usesOfNodes_append]
    have leaf : usesOfNodes other [node] = if builder.nextId = other then 1 else 0 := by
      simp [usesOfNodes, numbersOfNodes, number, List.count_cons]
    rw [leaf]
    simp only
    omega

omit keeps in
theorem Numbered.text {builder : Builder} (numbered : builder.Numbered) (source raw : String)
    (span : Span) : (builder.text settings source raw span).Numbered := by
  unfold Builder.text
  simp only
  split
  · unfold outerText
    split
    · exact numbered.spend rfl fun _ => rfl
    · split <;> exact numbered.spend rfl fun _ => rfl
  · next parent _ _ =>
    unfold Builder.innerText
    simp only
    generalize (if !builder.isPreformatted && settings.whitespace == .condense then
      String.ofList (condense false (textContent settings parent builder.isPreformatted raw).toList)
      else textContent settings parent builder.isPreformatted raw) = content
    split
    · exact numbered.spend rfl fun _ => rfl
    · split
      · exact numbered.spend rfl fun _ => rfl
      · exact numbered.leaf rfl rfl fun _ => rfl

omit keeps in
theorem Numbered.comment {builder : Builder} (numbered : builder.Numbered) (content : String)
    (span : Span) : (builder.comment settings content span).Numbered := by
  unfold Builder.comment
  split
  · exact numbered.leaf rfl rfl fun _ => rfl
  · exact numbered

theorem Numbered.token {builder : Builder} (numbered : builder.Numbered) (source : String)
    (token : Token) : (builder.token settings source token).Numbered := by
  cases token with
  | startTag name attributes selfClosing span =>
    exact numbered.startTag keeps name attributes selfClosing span
  | endTag name span => exact numbered.endTag keeps name span
  | text content span => exact numbered.text source content span
  | comment content span => exact numbered.comment content span
  | malformed content span =>
    have reported : (builder.report [.errorAt span (.malformedTag content)]).Numbered := numbered
    exact reported.text source content span

theorem Numbered.tokens {builder : Builder} (numbered : builder.Numbered) (source : String)
    (tokens : List Token) : (tokens.foldl (Builder.token settings source) builder).Numbered := by
  induction tokens generalizing builder with
  | nil => exact numbered
  | cons first others ih => exact ih (numbered.token keeps source first)

end Closing

end Builder

/-- In a document that has been read each number below the count is in use at
most once, and no other is. -/
theorem parse_numbered {settings : Settings}
    (keeps : ∀ extension ∈ settings.extensions, extension.KeepsNumber) (source : String) :
    ∀ root ∈ (Document.parse settings source).1.root, ∀ number,
      root.numbers.count number ≤
        if number < (Document.parse settings source).1.nodeCount then 1 else 0 := by
  have unused : Builder.initial.Numbered := fun _ => Nat.zero_le _
  have numbered := (unused.tokens keeps source (scan source)).closeAllUnmatched keeps
    ((scan source).foldl (Builder.token settings source) .initial).opened.length
  intro root held number
  refine Nat.le_trans ?_ (numbered number)
  have found : (((scan source).foldl (Builder.token settings source) .initial).closeAllUnmatched settings
      ((scan source).foldl (Builder.token settings source) .initial).opened.length).root = some root := held
  rw [Builder.uses, found]
  exact Nat.le_add_left _ _

/-! ## Flags by number -/

mutual

theorem annotate_numbers (settings : Settings) (around : Surroundings) (element : Element) :
    (element.annotate settings around).map Prod.fst = element.numbers := by
  match element with
  | ⟨head, children, branches⟩ =>
    rw [Element.annotate, Element.numbers, List.map_append, List.map_cons, annotateNodes_numbers,
      annotateBranches_numbers]

theorem annotateNodes_numbers (settings : Settings) (around : Surroundings) (nodes : List Node) :
    (annotateNodes settings around nodes).map Prod.fst = numbersOfNodes nodes := by
  match nodes with
  | [] => rfl
  | node :: rest =>
    rw [annotateNodes, numbersOfNodes, List.map_append, annotateNodes_numbers]
    match node with
    | .element element => rw [Node.annotate, Node.numbers, annotate_numbers]
    | .text run => rfl
    | .comment comment => rfl

theorem annotateBranches_numbers (settings : Settings) (around : Surroundings)
    (branches : List Branch) :
    (annotateBranches settings around branches).map Prod.fst = numbersOfBranches branches := by
  match branches with
  | [] => rfl
  | ⟨condition, block⟩ :: rest =>
    rw [annotateBranches, numbersOfBranches, List.map_append, annotate_numbers,
      annotateBranches_numbers]

end

theorem lookup_of_mem {entries : List (Nat × Flags)} {id : Nat} {flags : Flags}
    (once : (entries.map Prod.fst).count id ≤ 1) (held : (id, flags) ∈ entries) :
    entries.lookup id = some flags := by
  induction entries with
  | nil => cases held
  | cons entry rest ih =>
    obtain ⟨other, found⟩ := entry
    rw [List.map_cons, List.count_cons] at once
    rcases List.mem_cons.mp held with same | held
    · cases same
      simp
    · have inside : 0 < (rest.map Prod.fst).count id :=
        List.count_pos_iff.mpr (List.mem_map_of_mem held)
      have differs : (id == other) = false := by
        by_contra same
        have equal : other = id := (beq_iff_eq.mp (by simpa using same)).symm
        simp only [equal, beq_self_eq_true, if_true] at once
        omega
      rw [List.lookup_cons, differs]
      exact ih (by omega) held

/-- The flags that are found for a node are those that are looked up for it. -/
def Annotations.Holds (annotations : Annotations) (entries : List (Nat × Flags)) : Prop :=
  ∀ entry ∈ entries, annotations.get entry.1 = entry.2

theorem analyze_holds {settings : Settings}
    (keeps : ∀ extension ∈ settings.extensions, extension.KeepsNumber) (source : String) :
    ∀ root ∈ (Document.parse settings source).1.root,
      ((Document.parse settings source).1.analyze settings).Holds
        (root.annotate settings ⟨false, false, false⟩) := by
  intro root held ⟨id, flags⟩ inside
  have most := parse_numbered keeps source root held id
  generalize (Document.parse settings source).1 = document at held most ⊢
  have used : 0 < root.numbers.count id := by
    rw [← annotate_numbers settings ⟨false, false, false⟩ root]
    exact List.count_pos_iff.mpr (List.mem_map_of_mem inside)
  have below : id < document.nodeCount := by
    by_contra beyond
    rw [if_neg beyond] at most
    omega
  rw [if_pos below] at most
  have found := lookup_of_mem (by rwa [annotate_numbers]) inside
  have isRoot : document.root = some root := held
  simp only [Annotations.get, Document.analyze, isRoot]
  simp [List.getD_eq_getElem?_getD, List.getElem?_range below, found]

end Templating.Template
