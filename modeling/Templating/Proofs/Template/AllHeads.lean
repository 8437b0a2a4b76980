import Templating.Proofs.Template.Reading
import Templating.Proofs.Template.Rules
/-!
# All heads of a document

What holds of every head that is made, and is kept by the rules, holds of all
heads of a document that is read.
-/
set_option autoImplicit false

namespace Templating.Template

open Templating.Text Templating.Data Templating.Markup

mutual

/-- The heads of the element, of all below it and of its branches. -/
def Element.heads : Element → List Head
  | ⟨head, children, branches⟩ => head :: headsOfNodes children ++ headsOfBranches branches

def Node.heads : Node → List Head
  | .element element => element.heads
  | _ => []

def headsOfNodes : List Node → List Head
  | [] => []
  | node :: rest => node.heads ++ headsOfNodes rest

def headsOfBranches : List Branch → List Head
  | [] => []
  | ⟨_, block⟩ :: rest => block.heads ++ headsOfBranches rest

end

def Document.heads (document : Document) : List Head :=
  (document.root.map Element.heads).getD []

theorem mem_headsOfNodes {head : Head} {nodes : List Node} :
    head ∈ headsOfNodes nodes ↔ ∃ node ∈ nodes, head ∈ node.heads := by
  induction nodes with
  | nil => simp [headsOfNodes]
  | cons node rest ih => simp [headsOfNodes, ih]

theorem mem_headsOfBranches {head : Head} {branches : List Branch} :
    head ∈ headsOfBranches branches ↔ ∃ branch ∈ branches, head ∈ branch.block.heads := by
  induction branches with
  | nil => simp [headsOfBranches]
  | cons branch rest ih =>
    obtain ⟨condition, block⟩ := branch
    simp [headsOfBranches, ih]

theorem Element.mem_heads {head : Head} {element : Element} :
    head ∈ element.heads ↔ head = element.head ∨ head ∈ headsOfNodes element.children ∨
      head ∈ headsOfBranches element.branches := by
  obtain ⟨own, children, branches⟩ := element
  simp [Element.heads]

def Element.count (element : Element) : Nat := element.heads.length

theorem length_heads_node {node : Node} {nodes : List Node} (held : node ∈ nodes) :
    node.heads.length ≤ (headsOfNodes nodes).length := by
  induction nodes with
  | nil => cases held
  | cons first rest ih =>
    rw [headsOfNodes, List.length_append]
    rcases List.mem_cons.mp held with rfl | later
    · omega
    · have among := ih later
      omega

theorem length_heads_branch {branch : Branch} {branches : List Branch} (held : branch ∈ branches) :
    branch.block.heads.length ≤ (headsOfBranches branches).length := by
  induction branches with
  | nil => cases held
  | cons first rest ih =>
    obtain ⟨condition, block⟩ := first
    rw [headsOfBranches, List.length_append]
    rcases List.mem_cons.mp held with rfl | later
    · simp
    · have among := ih later
      omega

theorem Element.count_child {element child : Element} (held : .element child ∈ element.children) :
    child.count < element.count := by
  obtain ⟨head, children, branches⟩ := element
  have within : child.heads.length ≤ (headsOfNodes children).length := length_heads_node held
  simp only [count, heads, List.length_append, List.length_cons]
  omega

theorem Element.count_branch {element : Element} {branch : Branch}
    (held : branch ∈ element.branches) : branch.block.count < element.count := by
  obtain ⟨head, children, branches⟩ := element
  have within : branch.block.heads.length ≤ (headsOfBranches branches).length :=
    length_heads_branch held
  simp only [count, heads, List.length_append, List.length_cons]
  omega

def Element.All (holds : Head → Prop) (element : Element) : Prop :=
  ∀ head ∈ element.heads, holds head

/-- What holds of a head that is made, and stays so whatever reading does to
the head. -/
structure KeptByReading (settings : Settings) (holds : Head → Prop) : Prop where
  fresh : ∀ (id : Nat) (tag : String) (items : List SourceAttribute) (span : Span)
    (namespaceName : Option String) (isForbidden : Bool),
    holds { Head.new id tag items span with namespaceName, isForbidden }
  marked : ∀ (head : Head) (item : SourceAttribute) (rest : Head),
    head.take? "v-pre" = some (item, rest) → holds head → holds rest
  verbatim : ∀ head : Head, holds head → holds { head with isVerbatim := true }.takeVerbatim
  structured : ∀ head : Head, holds head → holds head.takeStructure.1
  completed : ∀ head : Head, holds head → holds (head.complete settings).1
  spanned : ∀ (head : Head) (span : Span), holds head → holds { head with span }
  joined : ∀ head : Head, holds head → holds { head with branchCondition := none }

section Kept

variable {settings : Settings} {holds : Head → Prop} (kept : KeptByReading settings holds)

theorem Element.All.ofParts {element : Element} (own : holds element.head)
    (below : ∀ head ∈ headsOfNodes element.children, holds head)
    (beside : ∀ head ∈ headsOfBranches element.branches, holds head) : element.All holds := by
  intro head held
  rcases Element.mem_heads.mp held with rfl | inside | inside
  · exact own
  · exact below head inside
  · exact beside head inside

theorem Element.All.own {element : Element} (all : element.All holds) : holds element.head :=
  all _ (Element.mem_heads.mpr (.inl rfl))

theorem Element.All.below {element : Element} (all : element.All holds) :
    ∀ head ∈ headsOfNodes element.children, holds head := fun head held =>
  all head (Element.mem_heads.mpr (.inr (.inl held)))

theorem Element.All.beside {element : Element} (all : element.All holds) :
    ∀ head ∈ headsOfBranches element.branches, holds head := fun head held =>
  all head (Element.mem_heads.mpr (.inr (.inr held)))

theorem headsOfNodes_subset {nodes others : List Node} (fewer : ∀ node ∈ nodes, node ∈ others)
    (all : ∀ head ∈ headsOfNodes others, holds head) : ∀ head ∈ headsOfNodes nodes, holds head := by
  intro head held
  obtain ⟨node, inside, here⟩ := mem_headsOfNodes.mp held
  exact all head (mem_headsOfNodes.mpr ⟨node, fewer node inside, here⟩)

theorem Element.All.addChild {parent child : Element} (all : parent.All holds)
    (allChild : child.All holds) : (parent.addChild (.element child)).All holds := by
  refine .ofParts all.own (fun head held => ?_) all.beside
  obtain ⟨node, inside, here⟩ := mem_headsOfNodes.mp held
  rcases List.mem_append.mp inside with inside | inside
  · exact all.below head (mem_headsOfNodes.mpr ⟨node, inside, here⟩)
  · rw [List.mem_singleton.mp inside] at here
    exact allChild head here

theorem Element.All.addLeaf {parent : Element} (all : parent.All holds) {node : Node}
    (leaf : node.heads = []) : (parent.addChild node).All holds := by
  refine .ofParts all.own (fun head held => ?_) all.beside
  obtain ⟨other, inside, here⟩ := mem_headsOfNodes.mp held
  rcases List.mem_append.mp inside with inside | inside
  · exact all.below head (mem_headsOfNodes.mpr ⟨other, inside, here⟩)
  · rw [List.mem_singleton.mp inside, leaf] at here
    cases here

include kept

theorem Element.All.addBranch {element branch : Element} (all : element.All holds)
    (allBranch : branch.All holds) : (element.addBranch branch).All holds := by
  refine .ofParts all.own all.below fun head held => ?_
  obtain ⟨other, inside, here⟩ := mem_headsOfBranches.mp held
  rcases List.mem_append.mp inside with inside | inside
  · exact all.beside head (mem_headsOfBranches.mpr ⟨other, inside, here⟩)
  · rw [List.mem_singleton.mp inside] at here
    have block : branch.asBranch.block.All holds :=
      .ofParts (kept.joined _ allBranch.own) allBranch.below allBranch.beside
    exact block head here

theorem attachBranch_all {parent branch : Element} (all : parent.All holds)
    (allBranch : branch.All holds) : (attachBranch parent branch).1.All holds := by
  have fewer : ∀ node ∈ (dropToElement parent.children.reverse).1, node ∈ parent.children :=
    fun node held => List.mem_reverse.mp (dropToElement_subset _ node held)
  have backwards : ({ parent with
      children := (dropToElement parent.children.reverse).1.reverse } : Element).All holds :=
    .ofParts all.own
      (headsOfNodes_subset (fun node held => fewer node (List.mem_reverse.mp held)) all.below)
      all.beside
  unfold attachBranch
  simp only
  split
  · next previous earlier found =>
    split
    · refine .ofParts all.own (fun head held => ?_) all.beside
      obtain ⟨node, inside, here⟩ := mem_headsOfNodes.mp held
      rcases List.mem_cons.mp (List.mem_reverse.mp inside) with rfl | inside
      · have last : previous.All holds := fun other there =>
          all.below other (mem_headsOfNodes.mpr
            ⟨.element previous, fewer _ (found ▸ List.mem_cons_self), there⟩)
        exact last.addBranch kept allBranch head here
      · exact all.below head (mem_headsOfNodes.mpr
          ⟨node, fewer node (found ▸ List.mem_cons_of_mem _ inside), here⟩)
    · exact backwards
  · exact backwards

namespace Builder

omit kept in
structure All (holds : Head → Prop) (builder : Builder) : Prop where
  opened : ∀ element ∈ builder.opened, element.All holds
  root : ∀ element ∈ builder.root, element.All holds

theorem All.place {builder : Builder} {element : Element} (all : builder.All holds)
    (allElement : element.All holds) : (builder.place element).All holds := by
  unfold Builder.place
  split
  · next parent outer given =>
    have inner : parent.All holds := all.opened parent (given ▸ List.mem_cons_self)
    have others : ∀ other ∈ outer, other.All holds := fun other held =>
      all.opened other (given ▸ List.mem_cons_of_mem _ held)
    split
    · exact all
    · split
      · exact ⟨List.forall_mem_cons.mpr ⟨attachBranch_all kept inner allElement, others⟩, all.root⟩
      · exact ⟨List.forall_mem_cons.mpr ⟨inner.addChild allElement, others⟩, all.root⟩
  · split
    · refine ⟨all.opened, fun other held => ?_⟩
      cases held
      exact allElement
    · next root given =>
      split
      · refine ⟨all.opened, fun other held => ?_⟩
        cases held
        exact (all.root root given).addBranch kept allElement
      · exact ⟨all.opened, all.root⟩

theorem All.close {builder : Builder} {element : Element} (all : builder.All holds)
    (allElement : element.All holds) : (builder.close settings element).All holds := by
  have head : holds (if builder.isVerbatim then (element.head, [])
      else element.head.complete settings).1 := by
    split
    · exact allElement.own
    · exact kept.completed _ allElement.own
  unfold Builder.close
  simp only
  generalize (if builder.isVerbatim then (element.head, []) else element.head.complete settings) =
    final at head ⊢
  have reported : (builder.report final.2).All holds := ⟨all.opened, all.root⟩
  have closed : ({ element with
      head := final.1
      children := if builder.isPreformatted then element.children
        else withoutTrailingSpaces element.children } : Element).All holds :=
    .ofParts head
      (headsOfNodes_subset (closedChildren_subset builder.isPreformatted element.children)
        allElement.below)
      allElement.beside
  have placed := reported.place kept closed
  exact ⟨placed.opened, placed.root⟩

theorem All.closeUnmatched {builder : Builder} (all : builder.All holds) :
    (builder.closeUnmatched settings).All holds := by
  unfold Builder.closeUnmatched
  split
  · exact all
  · next element outer given =>
    refine All.close kept ⟨fun other held => ?_, all.root⟩ ?_
    · exact all.opened other (given ▸ List.mem_cons_of_mem _ held)
    · exact all.opened element (given ▸ List.mem_cons_self)

theorem All.closeAllUnmatched {builder : Builder} (all : builder.All holds) (count : Nat) :
    (builder.closeAllUnmatched settings count).All holds := by
  induction count generalizing builder with
  | zero => exact all
  | succ count ih => exact ih (all.closeUnmatched kept)

theorem All.closeMatched {builder : Builder} (all : builder.All holds) (stop : Nat) :
    (builder.closeMatched settings stop).All holds := by
  unfold Builder.closeMatched
  split
  · exact all
  · next element outer given =>
    have inner : element.All holds := all.opened element (given ▸ List.mem_cons_self)
    refine All.close kept ⟨fun other held => ?_, all.root⟩ ?_
    · exact all.opened other (given ▸ List.mem_cons_of_mem _ held)
    · exact .ofParts (kept.spanned _ _ inner.own) inner.below inner.beside

theorem All.closeThrough {builder : Builder} (all : builder.All holds) (tag : String)
    (span : Span) : (builder.closeThrough settings tag span).All holds := by
  unfold Builder.closeThrough
  split
  · exact all
  · exact (all.closeAllUnmatched kept _).closeMatched kept _

theorem All.closeBefore {builder : Builder} (all : builder.All holds) (tag : String)
    (span : Span) : (builder.closeBefore settings tag span).All holds := by
  have outside : (if (builder.opened.head?.any fun element => element.head.tag == "p") &&
      settings.platform.isNonPhrasing tag then
        builder.closeThrough settings "p" ⟨span.start, span.start⟩ else builder).All holds := by
    split
    · exact all.closeThrough kept _ _
    · exact all
  unfold Builder.closeBefore
  simp only
  generalize (if (builder.opened.head?.any fun element => element.head.tag == "p") &&
    settings.platform.isNonPhrasing tag then
      builder.closeThrough settings "p" ⟨span.start, span.start⟩ else builder) = before at outside ⊢
  split
  · exact outside.closeThrough kept _ _
  · exact outside

theorem enter_holds (outside : Builder) {fresh : Head} (own : holds fresh) :
    holds (outside.enter fresh).1 := by
  unfold enter isVerbatim
  cases outside.verbatimRoot with
  | some id => exact kept.verbatim fresh own
  | none =>
    simp only [Option.isSome_none, Bool.false_eq_true, if_false]
    cases taken : fresh.take? "v-pre" with
    | some found =>
      obtain ⟨item, rest⟩ := found
      exact kept.verbatim rest (kept.marked fresh item rest taken own)
    | none => exact kept.structured fresh own

theorem All.startTag {builder : Builder} (all : builder.All holds) (tag : String)
    (attributes : List SourceAttribute) (selfClosing : Bool) (span : Span) :
    (builder.startTag settings tag attributes selfClosing span).All holds := by
  have outsideAll := all.closeBefore kept tag span
  unfold Builder.startTag
  simp only
  generalize builder.closeBefore settings tag span = outside at outsideAll ⊢
  have own := enter_holds kept outside
    (kept.fresh outside.nextId tag (distinctAttributes tag [] attributes).1 span _ _ :
      holds (outside.freshHead settings tag (distinctAttributes tag [] attributes).1 span))
  have element : Element.All holds ⟨(outside.enter
      (outside.freshHead settings tag (distinctAttributes tag [] attributes).1 span)).1, [], []⟩ :=
    .ofParts own (fun _ held => by cases held) fun _ held => by cases held
  split
  · exact All.close kept ⟨outsideAll.opened, outsideAll.root⟩ element
  · exact ⟨List.forall_mem_cons.mpr ⟨element, outsideAll.opened⟩, outsideAll.root⟩

theorem All.endTag {builder : Builder} (all : builder.All holds) (tag : String) (span : Span) :
    (builder.endTag settings tag span).All holds := by
  unfold Builder.endTag
  split
  · exact all.closeThrough kept _ _
  · split
    · have own : holds (Head.new builder.nextId "br" [] span) := kept.fresh _ _ _ _ none false
      exact All.close kept ⟨all.opened, all.root⟩
        (.ofParts own (fun _ held => by cases held) fun _ held => by cases held)
    · split
      · exact (all.startTag kept "p" [] false span).closeThrough kept _ _
      · exact ⟨all.opened, all.root⟩

omit kept in
theorem All.addLeaf {builder : Builder} (all : builder.All holds) {node : Node}
    (leaf : node.heads = []) :
    (builder.updateParent fun element => element.addChild node).All holds := by
  unfold Builder.updateParent
  split
  · exact all
  · next parent outer given =>
    have inner : parent.All holds := all.opened parent (given ▸ List.mem_cons_self)
    refine ⟨List.forall_mem_cons.mpr ⟨inner.addLeaf leaf, fun other held => ?_⟩, all.root⟩
    exact all.opened other (given ▸ List.mem_cons_of_mem _ held)

omit kept in
theorem All.text {builder : Builder} (all : builder.All holds) (source raw : String) (span : Span) :
    (builder.text settings source raw span).All holds := by
  have same {other : Builder} (opened : other.opened = builder.opened)
      (root : other.root = builder.root) : other.All holds :=
    ⟨opened ▸ all.opened, root ▸ all.root⟩
  unfold Builder.text
  simp only
  split
  · unfold outerText
    split
    · exact same rfl rfl
    · split <;> exact same rfl rfl
  · next parent _ _ =>
    unfold innerText
    simp only
    generalize (if !builder.isPreformatted && settings.whitespace == .condense then
      String.ofList (condense false (textContent settings parent builder.isPreformatted raw).toList)
      else textContent settings parent builder.isPreformatted raw) = content
    split
    · exact same rfl rfl
    · split
      · exact same rfl rfl
      · refine All.addLeaf ?_ ?_
        · exact same rfl rfl
        · rfl

theorem All.token {builder : Builder} (all : builder.All holds) (source : String) (token : Token) :
    (builder.token settings source token).All holds := by
  cases token with
  | startTag name attributes selfClosing span => exact all.startTag kept name attributes selfClosing span
  | endTag name span => exact all.endTag kept name span
  | text content span => exact all.text source content span
  | comment content span =>
    unfold Builder.token Builder.comment
    simp only
    split
    · refine All.addLeaf ?_ ?_
      · exact ⟨all.opened, all.root⟩
      · rfl
    · exact all
  | malformed content span =>
    have reported : (builder.report [.errorAt span (.malformedTag content)]).All holds :=
      ⟨all.opened, all.root⟩
    exact reported.text source content span

theorem All.tokens {builder : Builder} (all : builder.All holds) (source : String)
    (tokens : List Token) : (tokens.foldl (Builder.token settings source) builder).All holds := by
  induction tokens generalizing builder with
  | nil => exact all
  | cons first others ih => exact ih (all.token kept source first)

end Builder

/-- What reading keeps holds of all heads of a document. -/
theorem parse_all (source : String) : ∀ root ∈ (Document.parse settings source).1.root,
    root.All holds := by
  have start : Builder.initial.All holds :=
    ⟨fun _ held => (by cases held), fun _ held => (by cases held)⟩
  exact ((start.tokens kept source (scan source)).closeAllUnmatched kept _).root

end Kept

theorem parse_unextended {settings : Settings} (none : settings.extensions = []) (source : String) :
    ∀ root ∈ (Document.parse settings source).1.root, root.All fun head => head.extensions = [] :=
  parse_all
    { fresh := fun _ _ _ _ _ _ => rfl
      marked := fun _ _ _ taken same => (Head.takeFirst_leaves taken).extensions.trans same
      verbatim := fun _ same => same
      structured := fun head same => (Head.takeStructure_keeps head).extensions.trans same
      completed := fun head same => (complete_extensions none head).trans same
      spanned := fun _ _ same => same
      joined := fun _ same => same } source

end Templating.Template
