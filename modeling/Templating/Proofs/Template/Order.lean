import Templating.Proofs.Template.Course
import Templating.Proofs.Template.Lossless
/-!
# Nodes in the order of the source

Along a walk through a document, from each element to its children and then to its
branches, both the numbers of the nodes and the offsets at which they start increase.
While a template is read this holds of all that has been read, with the open elements
behind the root, outermost first: what is added comes behind all of it.
-/
set_option autoImplicit false

namespace Templating.Template

open Templating.Text Templating.Data Templating.Markup Templating.Rendering

/-! ## Walking through a tree -/

mutual

/-- The number and the start of the element and of all nodes below it and in its
branches, in the order of the walk. -/
def Element.places : Element → List (Nat × Nat)
  | ⟨head, children, branches⟩ =>
    (head.id, head.span.start) :: placesOfNodes children ++ placesOfBranches branches

def Node.places : Node → List (Nat × Nat)
  | .element element => element.places
  | .text run => [(run.id, run.span.start)]
  | .comment comment => [(comment.id, comment.span.start)]

def placesOfNodes : List Node → List (Nat × Nat)
  | [] => []
  | node :: rest => node.places ++ placesOfNodes rest

def placesOfBranches : List Branch → List (Nat × Nat)
  | [] => []
  | ⟨_, block⟩ :: rest => block.places ++ placesOfBranches rest

end

def Document.places (document : Document) : List (Nat × Nat) :=
  (document.root.map Element.places).getD []

/-- The second node has a greater number, and starts behind the start of the first. -/
def Precedes (first second : Nat × Nat) : Prop := first.1 < second.1 ∧ first.2 < second.2

mutual

theorem Element.places_numbers (element : Element) : element.places.map Prod.fst = element.numbers := by
  match element with
  | ⟨head, children, branches⟩ =>
    rw [Element.places, Element.numbers, List.map_append, List.map_cons, placesOfNodes_numbers,
      placesOfBranches_numbers]

theorem Node.places_numbers (node : Node) : node.places.map Prod.fst = node.numbers := by
  match node with
  | .element element => exact Element.places_numbers element
  | .text run => rfl
  | .comment comment => rfl

theorem placesOfNodes_numbers (nodes : List Node) :
    (placesOfNodes nodes).map Prod.fst = numbersOfNodes nodes := by
  match nodes with
  | [] => rfl
  | node :: rest =>
    rw [placesOfNodes, numbersOfNodes, List.map_append, Node.places_numbers, placesOfNodes_numbers]

theorem placesOfBranches_numbers (branches : List Branch) :
    (placesOfBranches branches).map Prod.fst = numbersOfBranches branches := by
  match branches with
  | [] => rfl
  | ⟨condition, block⟩ :: rest =>
    rw [placesOfBranches, numbersOfBranches, List.map_append, Element.places_numbers,
      placesOfBranches_numbers]

end

theorem placesOfNodes_eq (nodes : List Node) : placesOfNodes nodes = nodes.flatMap Node.places := by
  induction nodes with
  | nil => rfl
  | cons node rest ih => rw [placesOfNodes, ih, List.flatMap_cons]

theorem placesOfNodes_append (nodes others : List Node) :
    placesOfNodes (nodes ++ others) = placesOfNodes nodes ++ placesOfNodes others := by
  simp only [placesOfNodes_eq, List.flatMap_append]

theorem placesOfNodes_singleton (node : Node) : placesOfNodes [node] = node.places := by
  rw [placesOfNodes, placesOfNodes, List.append_nil]

theorem placesOfNodes_sublist {nodes others : List Node} (fewer : nodes.Sublist others) :
    (placesOfNodes nodes).Sublist (placesOfNodes others) := by
  simp only [placesOfNodes_eq]
  exact fewer.flatMap Node.places

theorem placesOfBranches_append (branches others : List Branch) :
    placesOfBranches (branches ++ others) = placesOfBranches branches ++ placesOfBranches others := by
  induction branches with
  | nil => rfl
  | cons branch rest ih =>
    obtain ⟨condition, block⟩ := branch
    rw [List.cons_append, placesOfBranches, placesOfBranches, ih, List.append_assoc]

theorem Element.places_eq (element : Element) :
    element.places = (element.head.id, element.head.span.start) :: placesOfNodes element.children ++
      placesOfBranches element.branches := by
  obtain ⟨head, children, branches⟩ := element
  rw [Element.places]

theorem Element.places_unbranched {element : Element} (unbranched : element.branches = []) :
    element.places = (element.head.id, element.head.span.start) :: placesOfNodes element.children := by
  rw [Element.places_eq, unbranched, placesOfBranches, List.append_nil]

theorem Element.places_addBranch (element branch : Element) :
    (element.addBranch branch).places = element.places ++ branch.places := by
  have block : placesOfBranches [branch.asBranch] = branch.places := by
    rw [asBranch, placesOfBranches, placesOfBranches, List.append_nil, Element.places_eq,
      Element.places_eq]
  rw [Element.places_eq, Element.places_eq element, addBranch, placesOfBranches_append, block]
  simp only [List.cons_append, List.append_assoc]

theorem Element.places_addChild {parent : Element} (unbranched : parent.branches = []) (node : Node) :
    (parent.addChild node).places = parent.places ++ node.places := by
  rw [Element.places_unbranched unbranched, Element.places_unbranched (by exact unbranched), addChild,
    placesOfNodes_append, placesOfNodes_singleton, List.cons_append]

/-- Nodes before a branch may be left out; the branch comes behind the others. -/
theorem places_attachBranch {parent branch : Element} (unbranched : parent.branches = []) :
    ((attachBranch parent branch).1.places.Sublist (parent.places ++ branch.places)) ∧
      (attachBranch parent branch).1.branches = [] := by
  have fewer := List.reverse_sublist.mpr (dropToElement_sublist parent.children.reverse)
  rw [List.reverse_reverse] at fewer
  have kept {children : List Node}
      (below : (placesOfNodes children).Sublist (placesOfNodes parent.children ++ branch.places)) :
      ({ parent with children } : Element).places.Sublist (parent.places ++ branch.places) := by
    rw [Element.places_unbranched unbranched, Element.places_unbranched (by exact unbranched),
      List.cons_append]
    exact below.cons_cons _
  unfold attachBranch
  simp only
  generalize (dropToElement parent.children.reverse).2 = diagnostics
  generalize (dropToElement parent.children.reverse).1 = backwards at fewer ⊢
  have dropped := kept ((placesOfNodes_sublist fewer).trans (List.sublist_append_left _ _))
  split
  · next previous earlier =>
    split
    · refine ⟨kept ?_, unbranched⟩
      have before := placesOfNodes_sublist fewer
      rw [List.reverse_cons, placesOfNodes_append, placesOfNodes_singleton] at before ⊢
      rw [Node.places, Element.places_addBranch, ← List.append_assoc]
      exact before.append_right branch.places
    · exact ⟨dropped, unbranched⟩
  · exact ⟨dropped, unbranched⟩

namespace Builder

/-! ## While reading -/

def places (builder : Builder) : List (Nat × Nat) :=
  (builder.root.map Element.places).getD [] ++ builder.opened.reverse.flatMap Element.places

theorem places_cons {builder : Builder} {element : Element} {outer : List Element}
    (given : builder.opened = element :: outer) :
    builder.places = places { builder with opened := outer } ++ element.places := by
  unfold places
  rw [given, List.reverse_cons, List.flatMap_append, List.flatMap_singleton, List.append_assoc]

def Unbranched (builder : Builder) : Prop := ∀ element ∈ builder.opened, element.branches = []

theorem Unbranched.parts {builder : Builder} (unbranched : builder.Unbranched) {element : Element}
    {outer : List Element} (given : builder.opened = element :: outer) :
    element.branches = [] ∧ ∀ around ∈ outer, around.branches = [] := by
  unfold Unbranched at unbranched
  rw [given] at unbranched
  exact List.forall_mem_cons.mp unbranched

theorem places_changed {before after : Builder} {parent changed : Element} {outer : List Element}
    {added : List (Nat × Nat)} (given : before.opened = parent :: outer)
    (opened : after.opened = changed :: outer) (root : after.root = before.root)
    (fewer : changed.places.Sublist (parent.places ++ added)) :
    after.places.Sublist (before.places ++ added) := by
  rw [places_cons given, places_cons opened, List.append_assoc]
  simp only [places, root]
  exact (List.Sublist.refl _).append fewer

theorem place_places {builder : Builder} (unbranched : builder.Unbranched) (element : Element) :
    (builder.place element).places.Sublist (builder.places ++ element.places) ∧
      (builder.place element).Unbranched := by
  unfold place
  cases given : builder.opened with
  | cons parent outer =>
    obtain ⟨inner, others⟩ := unbranched.parts given
    simp only
    split
    · exact ⟨List.sublist_append_left _ _, unbranched⟩
    · split
      · obtain ⟨fewer, branchless⟩ := @places_attachBranch parent element inner
        exact ⟨places_changed given rfl rfl fewer, List.forall_mem_cons.mpr ⟨branchless, others⟩⟩
      · have added := Element.places_addChild inner (.element element)
        exact ⟨places_changed given rfl rfl (added ▸ List.Sublist.refl _),
          List.forall_mem_cons.mpr ⟨inner, others⟩⟩
  | nil =>
    have none (held : Element) (impossible : held ∈ ([] : List Element)) : held.branches = [] :=
      absurd impossible List.not_mem_nil
    simp only
    split
    · next first =>
      refine ⟨?_, none⟩
      simp only [places, first, given, Option.map_none, Option.getD_none, List.reverse_nil,
        List.flatMap_nil, List.nil_append, Option.map_some, Option.getD_some, List.append_nil]
      exact List.Sublist.refl _
    · next root held =>
      split
      · refine ⟨?_, none⟩
        simp only [places, report, held, given, List.reverse_nil, List.flatMap_nil, List.append_nil,
          Option.map_some, Option.getD_some, Element.places_addBranch]
        exact List.Sublist.refl _
      · exact ⟨List.sublist_append_left _ _, unbranched⟩

/-- The rules that apply when the element closes leave its number and its span. -/
structure KeepsIdentity (settings : Settings) : Prop where
  number : ∀ extension ∈ settings.extensions, extension.Preserves Head.id
  span : ∀ extension ∈ settings.extensions, extension.Preserves Head.span

/-- A closed element comes behind all that has been read, or is left out. -/
theorem close_places {settings : Settings} (keeps : KeepsIdentity settings) (builder : Builder)
    (unbranched : builder.Unbranched) (element : Element) (branchless : element.branches = []) :
    (builder.close settings element).places.Sublist (builder.places ++ element.places) ∧
      (builder.close settings element).Unbranched := by
  obtain ⟨closed, diagnostics, closes, same⟩ := close_eq settings builder element
  have reported : (builder.report diagnostics).Unbranched := unbranched
  obtain ⟨placed, left⟩ := place_places reported closed
  have fewer : closed.places.Sublist element.places := by
    rw [Element.places_unbranched branchless,
      Element.places_unbranched (closes.branches.trans branchless),
      closes.field (fun leaves => leaves.id) keeps.number,
      closes.field (fun leaves => leaves.span) keeps.span]
    exact (placesOfNodes_sublist closes.children).cons_cons _
  rw [same]
  exact ⟨placed.trans ((List.Sublist.refl _).append fewer), left⟩

/-- What has been read is in order, and all of it comes before what is read next. -/
structure InOrder (moment : Moment) : Prop where
  ordered : moment.builder.places.Pairwise Precedes
  before : ∀ place ∈ moment.builder.places,
    place.1 < moment.builder.nextId ∧ place.2 < moment.position
  unbranched : moment.builder.Unbranched

section Moves

variable {first second : Moment}

theorem InOrder.fewer (inOrder : InOrder first)
    (fewer : second.builder.places.Sublist first.builder.places)
    (number : first.builder.nextId ≤ second.builder.nextId) (forward : first.position ≤ second.position)
    (unbranched : second.builder.Unbranched) : InOrder second where
  ordered := inOrder.ordered.sublist fewer
  before := by
    intro place held
    have bounds := inOrder.before place (fewer.subset held)
    omega
  unbranched := unbranched

theorem InOrder.added (inOrder : InOrder first) {span : Span}
    (more : second.builder.places.Sublist
      (first.builder.places ++ [(first.builder.nextId, span.start)]))
    (number : second.builder.nextId = first.builder.nextId + 1)
    (behind : first.position ≤ span.start) (forward : span.start < second.position)
    (unbranched : second.builder.Unbranched) : InOrder second where
  ordered := by
    refine List.Pairwise.sublist more (List.pairwise_append.mpr ⟨inOrder.ordered, ?_, ?_⟩)
    · exact List.pairwise_singleton _ _
    · intro place held other here
      rw [List.mem_singleton.mp here]
      have bounds := inOrder.before place held
      exact ⟨bounds.1, Nat.lt_of_lt_of_le bounds.2 behind⟩
  before := by
    intro place held
    rcases List.mem_append.mp (more.subset held) with held | here
    · have bounds := inOrder.before place held
      omega
    · rw [List.mem_singleton.mp here]
      exact ⟨by omega, forward⟩
  unbranched := unbranched

theorem InOrder.quiet {source : String} (inOrder : InOrder first) (move : Quiet source first second) :
    InOrder second := by
  have leaf {parent : Element} {outer : List Element} (given : first.builder.opened = parent :: outer)
      (node : Node) {place : Nat × Nat} (single : node.places = [place]) :
      (parent.addChild node).places = parent.places ++ [place] ∧
        ∀ element ∈ parent.addChild node :: outer, element.branches = [] := by
    obtain ⟨inner, others⟩ := inOrder.unbranched.parts given
    exact ⟨by rw [Element.places_addChild inner, single],
      List.forall_mem_cons.mpr ⟨inner, others⟩⟩
  cases move with
  | pass builder forward boundary =>
    exact inOrder.fewer (List.Sublist.refl _) (Nat.le_refl _) forward inOrder.unbranched
  | report position builder points =>
    exact inOrder.fewer (List.Sublist.refl _) (Nat.le_refl _) (Nat.le_refl _) inOrder.unbranched
  | spend position builder =>
    exact inOrder.fewer (List.Sublist.refl _) (Nat.le_succ _) (Nat.le_refl _) inOrder.unbranched
  | @text builder parent outer given position content segments span ahead plain =>
    obtain ⟨added, unbranched⟩ := leaf given (.text ⟨builder.nextId, content, segments, span⟩) rfl
    exact inOrder.added (places_changed given rfl rfl (added ▸ List.Sublist.refl _)) rfl ahead.behind
      ahead.nonempty unbranched
  | @comment builder parent outer given position content span ahead =>
    obtain ⟨added, unbranched⟩ := leaf given (.comment ⟨builder.nextId, content, span⟩) rfl
    exact inOrder.added (places_changed given rfl rfl (added ▸ List.Sublist.refl _)) rfl ahead.behind
      ahead.nonempty unbranched

theorem InOrder.turn {settings : Settings} (keeps : KeepsIdentity settings) {source : String}
    (inOrder : InOrder first) (move : Turn settings source first second) : InOrder second := by
  cases move with
  | @enter builder position tag named attributes span ahead items forbidden reported =>
    have kept := enter_keeps builder
      (builder.freshHead settings tag (distinctAttributes tag [] attributes).1 span)
    refine inOrder.added ?_ rfl ahead.behind ahead.nonempty
      (List.forall_mem_cons.mpr ⟨rfl, inOrder.unbranched⟩)
    simp only
    rw [places_cons (rfl : (builder.opening settings tag _).opened = _ :: builder.opened),
      Element.places_unbranched rfl, kept.id, kept.span]
    exact List.Sublist.refl _
  | @lineBreak builder position span ahead =>
    obtain ⟨more, unbranched⟩ := close_places keeps { builder with nextId := builder.nextId + 1 }
      inOrder.unbranched ⟨Head.new builder.nextId "br" [] span, [], []⟩ rfl
    exact inOrder.added more (close_nextId _ _) ahead.behind ahead.nonempty unbranched
  | @close builder element outer given position stop stops =>
    obtain ⟨inner, others⟩ := inOrder.unbranched.parts given
    let closed : Element :=
      { element with head := { element.head with span := ⟨element.head.span.start, stop⟩ } }
    let outside : Builder := { builder with opened := outer }
    obtain ⟨more, unbranched⟩ := close_places keeps outside others closed inner
    have number : (outside.close settings closed).nextId = builder.nextId := close_nextId outside closed
    have same : closed.places = element.places := by
      rw [Element.places_unbranched inner, Element.places_unbranched (by exact inner)]
    refine inOrder.fewer ?_ (Nat.le_of_eq number.symm) (Nat.le_refl _) unbranched
    rw [same] at more
    simp only [places_cons given]
    exact more

end Moves

end Builder

theorem base_keepsIdentity {base : Settings} (known : IsBase base) {overlay : Overlay}
    (unextended : overlay.extensions = []) : Builder.KeepsIdentity (base.overlaid overlay) :=
  ⟨base_preserves known unextended (fun leaves => leaves.id) fun _ _ => rfl,
    base_preserves known unextended (fun leaves => leaves.span) fun _ _ => rfl⟩

/-- Along the walk through a document the numbers and the starts of nodes increase, and
the numbers stay below the count. -/
theorem parse_inOrder {settings : Settings} (keeps : Builder.KeepsIdentity settings)
    (source : String) :
    (Document.parse settings source).1.places.Pairwise Precedes ∧
      ∀ place ∈ (Document.parse settings source).1.places,
        place.1 < (Document.parse settings source).1.nodeCount := by
  obtain ⟨position, final, course, -, same⟩ := parse_course settings source
  have start : Builder.InOrder ⟨0, .initial⟩ :=
    ⟨.nil, List.forall_mem_nil _, List.forall_mem_nil _⟩
  have inOrder := course.keep Builder.InOrder (fun _ _ move before => before.quiet move)
    (fun _ _ move before => before.turn keeps move) start
  have part : (final.root.map Element.places).getD [] <+: final.places := List.prefix_append _ _
  rw [same]
  exact ⟨inOrder.ordered.sublist part.sublist, fun place held =>
    (inOrder.before place (part.subset held)).1⟩

/-- The numbers of nodes index them: they increase along the walk together with the
starts of the nodes, are distinct and below the count, and the table of flags, which has
one entry for each number, gives each node the flags that are found for it. -/
theorem parse_indexed {settings : Settings} (keeps : Builder.KeepsIdentity settings)
    (source : String) :
    let document := (Document.parse settings source).1
    document.places.Pairwise Precedes ∧
      (∀ place ∈ document.places, place.1 < document.nodeCount) ∧
      (document.places.map Prod.fst).Nodup ∧
      (document.analyze settings).table.length = document.nodeCount ∧
      ∀ root ∈ document.root,
        (root.annotate settings ⟨false, false, false⟩).map Prod.fst = root.places.map Prod.fst ∧
          (document.analyze settings).Holds (root.annotate settings ⟨false, false, false⟩) := by
  obtain ⟨ordered, below⟩ := parse_inOrder keeps source
  refine ⟨ordered, below, ?_, ?_, fun root held => ⟨?_, analyze_holds keeps.number source root held⟩⟩
  · exact List.pairwise_map.mpr (ordered.imp fun precedes => Nat.ne_of_lt precedes.1)
  · rw [Document.analyze, List.length_map, List.length_range]
  · rw [annotate_numbers, Element.places_numbers]

/-- Elements that end by themselves, a branch behind a comment, an end tag that opens a
paragraph, and a second root that is left out. -/
def unevenPlaces : String :=
  "<ul><li v-if=\"a\">x<!--c--><li v-else>y</p> </br></ul><b>z"

theorem unevenPlaces_indexed :
    let settings := Web.settings.overlaid .empty
    let document := (Document.parse settings unevenPlaces).1
    Builder.KeepsIdentity settings ∧
      errorsOf (Document.parse settings unevenPlaces).2 ≠ [] ∧
      document.places = [(0, 0), (1, 4), (2, 17), (3, 26), (4, 37), (5, 38), (6, 42), (7, 43)] ∧
      document.places.Pairwise Precedes ∧
      (∀ place ∈ document.places, place.1 < document.nodeCount) ∧
      (document.places.map Prod.fst).Nodup ∧
      (document.analyze settings).table.length = document.nodeCount ∧
      ∀ root ∈ document.root,
        (root.annotate settings ⟨false, false, false⟩).map Prod.fst = root.places.map Prod.fst ∧
          (document.analyze settings).Holds (root.annotate settings ⟨false, false, false⟩) := by
  have keeps : Builder.KeepsIdentity (Web.settings.overlaid .empty) := base_keepsIdentity (.inl rfl) rfl
  exact ⟨keeps, by decide +kernel, by decide +kernel, parse_indexed keeps unevenPlaces⟩

end Templating.Template
