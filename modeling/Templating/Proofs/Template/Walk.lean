import Templating.Proofs.Template.Numbering
import Templating.Proofs.Translation.Programs
/-!
# Walks

A walk goes through a tree in the order of its source: into an element, through
its children, out of it, and on to its branches.  The tokens of a template have
a walk of their own, which knows only the tags that are open.  Where reading
reports no error, the two walks are the same, so that nothing is lost and nothing
is read twice.
-/
set_option autoImplicit false

namespace Templating.Template

open Templating.Text Templating.Data Templating.Markup

inductive Visit where
  | entered (tag : String)
  | text (content : String)
  | left
deriving DecidableEq, Repr

def shown (content : String) : List Visit :=
  if allBlank content then [] else [.text content]

/-! ## The walk through a tree -/

mutual

def Element.visits : Element → List Visit
  | ⟨head, children, branches⟩ =>
    .entered head.tag :: visitsOfNodes children ++ .left :: visitsOfBranches branches

def Node.visits : Node → List Visit
  | .element element => element.visits
  | .text run => shown run.content
  | .comment _ => []

def visitsOfNodes : List Node → List Visit
  | [] => []
  | node :: rest => node.visits ++ visitsOfNodes rest

def visitsOfBranches : List Branch → List Visit
  | [] => []
  | ⟨_, block⟩ :: rest => block.visits ++ visitsOfBranches rest

end

def Document.visits (document : Document) : List Visit :=
  (document.root.map Element.visits).getD []

/-! ## The walk through the tokens -/

/-- What is left open, and the way there. -/
abbrev Passage := List String × List Visit

def leaveOpen (count : Nat) (opened : List String) : Passage :=
  (opened.drop count, List.replicate count .left)

def Passage.andThen (first : Passage) (next : List String → Passage) : Passage :=
  ((next first.1).1, first.2 ++ (next first.1).2)

def leaveParagraph (platform : Platform) (tag : String) (opened : List String) : Passage :=
  leaveOpen (if opened.head?.any (· == "p") && platform.isNonPhrasing tag then 1 else 0) opened

def leaveSibling (platform : Platform) (tag : String) (opened : List String) : Passage :=
  leaveOpen (if platform.mayStayOpen tag && opened.head?.any (· == tag) then 1 else 0) opened

def enterTag (platform : Platform) (tag : String) (selfClosing : Bool) (opened : List String) :
    Passage :=
  if platform.isUnary tag || selfClosing then (opened, [.entered tag, .left])
  else (tag :: opened, [.entered tag])

/-- Leaves the innermost element called `tag`, in any case, and all inside it. -/
def leaveThrough? (tag : String) (opened : List String) : Option Passage :=
  (opened.findIdx? fun other => sameIgnoringAsciiCase other tag).map fun depth =>
    leaveOpen (depth + 1) opened

/-- A line break or paragraph that was never opened is empty where it ends. -/
def leaveTag (tag : String) (opened : List String) : Passage :=
  (leaveThrough? tag opened).getD
    (if sameIgnoringAsciiCase tag "br" then (opened, [.entered "br", .left])
      else if sameIgnoringAsciiCase tag "p" then (opened, [.entered "p", .left])
      else (opened, []))

/-- The content of a text: as it stands inside scripts and styles, with its
references decoded elsewhere. -/
def contentWithin (opened : List String) (raw : String) : String :=
  if opened.head?.any Builder.isRawTextTag then raw else decodeText raw

def passToken (platform : Platform) (opened : List String) : Token → Passage
  | .startTag tag _ selfClosing _ =>
    ((leaveParagraph platform tag opened).andThen (leaveSibling platform tag)).andThen
      (enterTag platform tag selfClosing)
  | .endTag tag _ => leaveTag tag opened
  | .text raw _ => (opened, shown (contentWithin opened raw))
  | .comment _ _ => (opened, [])
  | .malformed _ _ => (opened, [])

/-- The walk through the tokens; what is open at the end is left. -/
def passTokens (platform : Platform) : List String → List Token → List Visit
  | opened, [] => opened.map fun _ => .left
  | opened, token :: rest =>
    (passToken platform opened token).2 ++
      passTokens platform (passToken platform opened token).1 rest

/-! ## Parts of a tree -/

theorem Element.visits_eq (element : Element) :
    element.visits = .entered element.head.tag :: visitsOfNodes element.children ++
      .left :: visitsOfBranches element.branches := by
  obtain ⟨head, children, branches⟩ := element
  rw [Element.visits]

theorem visitsOfNodes_append (nodes others : List Node) :
    visitsOfNodes (nodes ++ others) = visitsOfNodes nodes ++ visitsOfNodes others := by
  induction nodes with
  | nil => rfl
  | cons node rest ih => simp [visitsOfNodes, ih]

theorem visitsOfBranches_append (branches others : List Branch) :
    visitsOfBranches (branches ++ others) = visitsOfBranches branches ++ visitsOfBranches others := by
  induction branches with
  | nil => rfl
  | cons branch rest ih =>
    obtain ⟨condition, block⟩ := branch
    simp [visitsOfBranches, ih]

theorem visitsOfNodes_unseen {nodes : List Node} (unseen : ∀ node ∈ nodes, node.visits = []) :
    visitsOfNodes nodes = [] := by
  induction nodes with
  | nil => rfl
  | cons node rest ih =>
    obtain ⟨first, others⟩ := List.forall_mem_cons.mp unseen
    rw [visitsOfNodes, first, ih others, List.nil_append]

theorem Element.visits_addBranch (element branch : Element) :
    (element.addBranch branch).visits = element.visits ++ branch.visits := by
  have block : visitsOfBranches [branch.asBranch] = branch.visits := by
    rw [asBranch, visitsOfBranches, visitsOfBranches, List.append_nil, Element.visits_eq,
      Element.visits_eq]
  rw [Element.visits_eq, Element.visits_eq element, addBranch, visitsOfBranches_append, block]
  simp

theorem visitsOfNodes_addChild (parent : Element) (node : Node) :
    visitsOfNodes (parent.addChild node).children =
      visitsOfNodes parent.children ++ node.visits := by
  rw [Element.addChild, visitsOfNodes_append, visitsOfNodes, visitsOfNodes, List.append_nil]

theorem visits_blankSpace {node : Node} (blank : node.isBlankSpace = true) : node.visits = [] := by
  cases node with
  | text run =>
    have space : run.content = " " := by simpa [Node.isBlankSpace, TextRun.isBlankSpace] using blank
    rw [Node.visits, space]
    rfl
  | element element => cases blank
  | comment comment => cases blank

theorem visitsOfNodes_withoutTrailingSpaces (children : List Node) :
    visitsOfNodes (withoutTrailingSpaces children) = visitsOfNodes children := by
  have split : children = withoutTrailingSpaces children ++
      (children.reverse.takeWhile Node.isBlankSpace).reverse := by
    rw [withoutTrailingSpaces, ← List.reverse_append, List.takeWhile_append_dropWhile,
      List.reverse_reverse]
  have unseen : visitsOfNodes (children.reverse.takeWhile Node.isBlankSpace).reverse = [] :=
    visitsOfNodes_unseen fun node held =>
      visits_blankSpace (List.mem_takeWhile_imp (List.mem_reverse.mp held))
  conv_rhs => rw [split, visitsOfNodes_append, unseen, List.append_nil]

/-! ## Reports -/

theorem errorsOf_append (diagnostics others : List Diagnostic) :
    errorsOf (diagnostics ++ others) = errorsOf diagnostics ++ errorsOf others :=
  List.filter_append ..

theorem errorsOf_errorAt (span : Span) (problem : Problem) (others : List Diagnostic) :
    errorsOf (.errorAt span problem :: others) ≠ [] := by
  simp [errorsOf, Diagnostic.isError, Diagnostic.errorAt]

theorem dropToElement_unseen {nodes : List Node} (clean : errorsOf (dropToElement nodes).2 = []) :
    ∃ dropped, nodes = dropped ++ (dropToElement nodes).1 ∧ ∀ node ∈ dropped, node.visits = [] := by
  induction nodes with
  | nil => exact ⟨[], rfl, fun _ held => by cases held⟩
  | cons node earlier ih =>
    cases node with
    | text run =>
      simp only [dropToElement] at clean ⊢
      rw [errorsOf_append, List.append_eq_nil_iff] at clean
      obtain ⟨dropped, same, unseen⟩ := ih clean.2
      refine ⟨.text run :: dropped, by rw [List.cons_append, ← same],
        List.forall_mem_cons.mpr ⟨?_, unseen⟩⟩
      cases blank : allBlank run.content with
      | true => rw [Node.visits, shown, blank, if_pos rfl]
      | false =>
        rw [blank] at clean
        exact absurd clean.1 (errorsOf_errorAt _ _ _)
    | comment comment =>
      obtain ⟨dropped, same, unseen⟩ := ih clean
      exact ⟨.comment comment :: dropped, by rw [List.cons_append, dropToElement, ← same],
        List.forall_mem_cons.mpr ⟨rfl, unseen⟩⟩
    | element element => exact ⟨[], rfl, fun _ held => by cases held⟩

/-- A branch that joins its element without a report is seen behind all children
of the parent. -/
theorem visits_attachBranch {parent branch : Element}
    (clean : errorsOf (attachBranch parent branch).2 = []) :
    visitsOfNodes (attachBranch parent branch).1.children =
      visitsOfNodes parent.children ++ branch.visits := by
  have stray (diagnostics : List Diagnostic) :
      errorsOf (diagnostics ++ [strayBranch branch.head]) ≠ [] := by
    rw [errorsOf_append]
    exact fun none => errorsOf_errorAt _ _ _ (List.append_eq_nil_iff.mp none).2
  have split := @dropToElement_unseen parent.children.reverse
  unfold attachBranch at clean ⊢
  generalize dropToElement parent.children.reverse = found at clean split ⊢
  obtain ⟨backwards, diagnostics⟩ := found
  match backwards with
  | .element previous :: earlier =>
    cases conditioned : previous.head.condition.isSome with
    | false =>
      simp only [conditioned, Bool.false_eq_true, if_false] at clean
      exact absurd clean (stray diagnostics)
    | true =>
      simp only [conditioned, if_true] at clean ⊢
      obtain ⟨dropped, same, unseen⟩ := split clean
      have children : parent.children = earlier.reverse ++ .element previous :: dropped.reverse := by
        rw [← List.reverse_reverse parent.children, same]
        simp
      have behind : visitsOfNodes dropped.reverse = [] :=
        visitsOfNodes_unseen fun node held => unseen node (List.mem_reverse.mp held)
      rw [children, List.reverse_cons, visitsOfNodes_append, visitsOfNodes_append]
      simp [visitsOfNodes, Node.visits, Element.visits_addBranch, behind]
  | [] | .text _ :: _ | .comment _ :: _ => exact absurd clean (stray diagnostics)

end Templating.Template
