import Mathlib.Data.List.Perm.Subperm
import Templating.Proofs.Template.Marking
import Templating.Proofs.Translation.Drafts
import Templating.Proofs.Translation.Written
/-!
# What is hoisted

The fragments of a program are those of certain elements, in the order in which
their sources are finished.  Every static root that is written is among them, so
there are at least as many fragments as static roots, where nothing keeps one of
the roots from being written.
-/
set_option autoImplicit false

namespace Templating.Rendering

open Templating.Text Templating.Template

/-- Each fragment of a program is that of one element, in this order. -/
theorem generate_fragments (settings : Settings) (annotations : Annotations) (document : Document) :
    List.Forall₂ (IsFragmentOf ⟨settings, annotations⟩) (hoistedOfDocument annotations document)
      (generate settings annotations document).1.fragments := by
  obtain ⟨after, transition, same, -⟩ := @generate_transition (fun _ => True) settings annotations
    document fun _ _ _ _ _ => trivial
  obtain ⟨added, grown, matched⟩ := transition.fragments
  rw [same, grown]
  exact matched

/-! ## Static roots are hoisted -/

section Roots

variable {annotations : Annotations}

theorem subset_layers {own : Element} {beside inner : List Element} (around : List Layer) :
    inner ⊆ around.foldr (fun layer inner => layer.hoisted own beside inner) inner := by
  induction around with
  | nil => exact List.Subset.refl inner
  | cons layer rest ih =>
    rw [List.foldr_cons]
    cases layer with
    | hoist => exact List.subset_append_of_subset_left _ ih
    | once => exact ih
    | loop => exact ih
    | choose => exact List.subset_append_of_subset_left _ ih

theorem mem_layers_of_hoist {own : Element} {beside inner : List Element} {around : List Layer}
    (held : .hoist ∈ around) :
    own ∈ around.foldr (fun layer inner => layer.hoisted own beside inner) inner := by
  obtain ⟨outer, rest, rfl⟩ := List.append_of_mem held
  rw [List.foldr_append, List.foldr_cons]
  exact subset_layers outer (List.mem_append_right _ List.mem_cons_self)

theorem beside_subset_layers {own : Element} {beside inner : List Element} {around : List Layer}
    (held : .choose ∈ around) :
    beside ⊆ around.foldr (fun layer inner => layer.hoisted own beside inner) inner := by
  obtain ⟨outer, rest, rfl⟩ := List.append_of_mem held
  rw [List.foldr_append, List.foldr_cons]
  exact fun element inside => subset_layers outer (List.mem_append_right _ inside)

theorem hoisted_subset_nodes {element : Element} {nodes : List Node} (held : .element element ∈ nodes) :
    hoisted annotations element ⊆ hoistedOfNodes annotations nodes := by
  induction nodes with
  | nil => cases held
  | cons node rest ih =>
    rcases List.mem_cons.mp held with rfl | inside
    · rw [hoistedOfNodes]
      exact List.subset_append_left _ _
    · cases node with
      | element first =>
        rw [hoistedOfNodes]
        exact List.subset_append_of_subset_right _ (ih inside)
      | text run => exact ih inside
      | comment comment => exact ih inside

theorem hoisted_subset_branches {branch : Branch} {before : List Branch} (behind : List Branch)
    (conditional : ∀ earlier ∈ before, earlier.condition.isSome = true) :
    hoisted annotations branch.block ⊆
      hoistedOfBranches annotations (before ++ branch :: behind) := by
  induction before with
  | nil =>
    obtain ⟨condition, block⟩ := branch
    cases condition with
    | none => exact List.Subset.refl _
    | some condition => exact List.subset_append_left _ _
  | cons first others ih =>
    obtain ⟨here, rest⟩ := List.forall_mem_cons.mp conditional
    obtain ⟨condition, block⟩ := first
    cases condition with
    | none => cases here
    | some condition => exact List.subset_append_of_subset_right _ (ih rest)

theorem hoisted_eq (element : Element) : hoisted annotations element =
    (layers (annotations.get element.head.id) element.head).foldr
      (fun layer inner => layer.hoisted element (hoistedOfBranches annotations element.branches) inner)
      (hoistedOfNodes annotations element.children) := by
  obtain ⟨head, children, branches⟩ := element
  exact hoisted.eq_1 _ _ _ _

theorem chosen_mem_layers {flags : Flags} {head : Head} (chosen : head.condition.isSome = true) :
    .choose ∈ layers flags head := by
  cases once : head.isOnce <;> simp [layers, chosen, once]

/-- What is hoisted while an element is written is hoisted in the whole. -/
theorem Written.hoisted_subset {root element : Element} {loops inner : List (Option String)}
    (written : Written root loops element inner) :
    hoisted annotations element ⊆ hoisted annotations root := by
  induction written with
  | here element loops => exact List.Subset.refl _
  | @child parent child element loops inner held inside ih =>
    refine List.Subset.trans ih (List.Subset.trans (hoisted_subset_nodes held) ?_)
    rw [hoisted_eq parent]
    exact subset_layers _
  | @branch parent element before behind branch loops inner chosen given conditional beside ih =>
    refine List.Subset.trans ih (List.Subset.trans (hoisted_subset_branches behind conditional) ?_)
    rw [hoisted_eq parent, given]
    exact beside_subset_layers (chosen_mem_layers chosen)

theorem Written.root_hoisted {root element : Element} {loops inner : List (Option String)}
    (written : Written root loops element inner)
    (isRoot : (annotations.get element.head.id).isRoot = true) :
    element ∈ hoisted annotations root := by
  apply written.hoisted_subset
  rw [hoisted_eq]
  apply mem_layers_of_hoist
  simp [layers, isRoot]

end Roots

/-! ## Counting -/

mutual

theorem element_of_annotate {settings : Settings} {around : Surroundings} (element : Element)
    {entry : Nat × Flags} (held : entry ∈ element.annotate settings around)
    (isRoot : entry.2.isRoot = true) :
    ∃ above inner, Lineage element above inner ∧ inner.head.id = entry.1 := by
  match element with
  | ⟨head, children, branches⟩ =>
    rw [Element.annotate_eq, List.mem_append, List.mem_cons] at held
    rcases held with (own | below) | beside
    · exact ⟨[], _, .here _, by rw [own]⟩
    · obtain ⟨child, inside, above, inner, lineage, same⟩ := element_of_annotateNodes children below isRoot
      exact ⟨_, inner, .child inside lineage, same⟩
    · obtain ⟨branch, inside, above, inner, lineage, same⟩ :=
        element_of_annotateBranches branches beside isRoot
      exact ⟨_, inner, .branch inside lineage, same⟩

theorem element_of_annotateNodes {settings : Settings} {around : Surroundings} (nodes : List Node)
    {entry : Nat × Flags} (held : entry ∈ annotateNodes settings around nodes)
    (isRoot : entry.2.isRoot = true) :
    ∃ child, .element child ∈ nodes ∧ ∃ above inner, Lineage child above inner ∧ inner.head.id = entry.1 := by
  match nodes with
  | [] => cases held
  | node :: rest =>
    rw [annotateNodes, List.mem_append] at held
    rcases held with here | later
    · match node with
      | .element child =>
        exact ⟨child, List.mem_cons_self, element_of_annotate child here isRoot⟩
      | .text run =>
        rw [List.mem_singleton.mp here] at isRoot
        cases isRoot
      | .comment comment =>
        rw [List.mem_singleton.mp here] at isRoot
        cases isRoot
    · obtain ⟨child, inside, found⟩ := element_of_annotateNodes rest later isRoot
      exact ⟨child, List.mem_cons_of_mem _ inside, found⟩

theorem element_of_annotateBranches {settings : Settings} {around : Surroundings}
    (branches : List Branch) {entry : Nat × Flags}
    (held : entry ∈ annotateBranches settings around branches) (isRoot : entry.2.isRoot = true) :
    ∃ branch ∈ branches, ∃ above inner, Lineage branch.block above inner ∧ inner.head.id = entry.1 := by
  match branches with
  | [] => cases held
  | ⟨condition, block⟩ :: rest =>
    rw [annotateBranches, List.mem_append] at held
    rcases held with here | later
    · exact ⟨⟨condition, block⟩, List.mem_cons_self, element_of_annotate block here isRoot⟩
    · obtain ⟨branch, inside, found⟩ := element_of_annotateBranches rest later isRoot
      exact ⟨branch, List.mem_cons_of_mem _ inside, found⟩

end

theorem mem_of_lookup {entries : List (Nat × Flags)} {id : Nat} {flags : Flags}
    (found : entries.lookup id = some flags) : (id, flags) ∈ entries := by
  obtain ⟨before, behind, same, -⟩ := List.lookup_eq_some_iff.mp found
  rw [same]
  exact List.mem_append_right _ List.mem_cons_self

theorem lookup_of_root {entries : List (Nat × Flags)} {count id : Nat}
    (isRoot : (Annotations.get
      ⟨(List.range count).map fun id => (entries.lookup id).getD .none⟩ id).isRoot = true) :
    ∃ flags, entries.lookup id = some flags ∧ flags.isRoot = true := by
  rw [Annotations.get, List.getD_eq_getElem?_getD, List.getElem?_map] at isRoot
  by_cases below : id < count
  · rw [List.getElem?_range below] at isRoot
    cases found : entries.lookup id with
    | some flags => exact ⟨flags, rfl, by simpa [found] using isRoot⟩
    | none => simp [found, Flags.none] at isRoot
  · rw [List.getElem?_eq_none (by simpa using below)] at isRoot
    cases isRoot

theorem element_of_root {settings : Settings} {document : Document} {id : Nat}
    (isRoot : ((document.analyze settings).get id).isRoot = true) :
    ∃ root ∈ document.root, ∃ above element, Lineage root above element ∧ element.head.id = id := by
  obtain ⟨flags, found, root⟩ := lookup_of_root isRoot
  cases given : document.root with
  | none => simp [given] at found
  | some element =>
    rw [given] at found
    obtain ⟨above, inner, lineage, same⟩ := element_of_annotate element (mem_of_lookup found) root
    exact ⟨element, rfl, above, inner, lineage, same⟩

theorem rootCount_le {annotations : Annotations} {numbers : List Nat}
    (listed : ∀ id, (annotations.get id).isRoot = true → id ∈ numbers) :
    annotations.rootCount ≤ numbers.length := by
  have indexed : annotations.table =
      (List.range annotations.table.length).map annotations.get := by
    apply List.ext_getElem
    · simp
    · intro index inside _
      simp [Annotations.get, List.getD_eq_getElem?_getD, inside]
  have counted : annotations.rootCount =
      ((List.range annotations.table.length).filter fun id => (annotations.get id).isRoot).length := by
    unfold Annotations.rootCount
    conv_lhs => rw [indexed]
    rw [List.filter_map, List.length_map]
    rfl
  rw [counted]
  apply List.Subperm.length_le
  apply List.Nodup.subperm (List.nodup_range.filter _)
  intro id held
  exact listed id (List.mem_filter.mp held).2

/-- Every static root has a fragment of its own, in a document without a script
for a root in which no branch is behind one without a condition. -/
theorem compile_rootsHoisted (settings : Settings) (optimizes : settings.optimizes = true)
    (template : String) (written : ∀ root ∈ (compile settings template).document.root,
      root.head.tag ≠ "script" ∧ root.Throughout EndsChain) :
    let compiled := compile settings template
    let elements := hoistedOfDocument compiled.annotations compiled.document
    (∀ root ∈ compiled.document.root, ∀ above element, Lineage root above element →
        (compiled.annotations.get element.head.id).isRoot = true → element ∈ elements) ∧
      List.Forall₂ (IsFragmentOf ⟨settings, compiled.annotations⟩) elements
        compiled.program.fragments ∧
      compiled.annotations.rootCount ≤ compiled.fragments.length := by
  obtain ⟨parsed, annotated, generated, -⟩ := compile_parts settings template
  have placed := parse_placed settings (trimmed template)
  rw [← parsed] at placed
  rw [if_pos optimizes] at annotated
  have fragments := generate_fragments settings (compile settings template).annotations
    (compile settings template).document
  rw [← generated] at fragments
  generalize compile settings template = compiled at *
  have hoists : ∀ root ∈ compiled.document.root, ∀ above element, Lineage root above element →
      (compiled.annotations.get element.head.id).isRoot = true →
        element ∈ hoistedOfDocument compiled.annotations compiled.document := by
    intro root held above element lineage isRoot
    obtain ⟨noScript, ends⟩ := written root held
    obtain ⟨inner, reached⟩ := lineage_written lineage (placed root held) ends []
    have given : compiled.document.root = some root := held
    simpa [hoistedOfDocument, given, noScript] using reached.root_hoisted isRoot
  refine ⟨hoists, fragments, ?_⟩
  have listed : ∀ id, (compiled.annotations.get id).isRoot = true → id ∈
      (hoistedOfDocument compiled.annotations compiled.document).map fun element => element.head.id := by
    intro id isRoot
    rw [annotated] at isRoot
    obtain ⟨root, held, above, element, lineage, rfl⟩ := element_of_root isRoot
    rw [← annotated] at isRoot
    exact List.mem_map_of_mem (hoists root held above element lineage isRoot)
  calc compiled.annotations.rootCount
      ≤ ((hoistedOfDocument compiled.annotations compiled.document).map
          fun element => element.head.id).length := rootCount_le listed
    _ = compiled.program.fragments.length := by rw [List.length_map, fragments.length_eq]
    _ = compiled.fragments.length := by rw [Compiled.fragments, List.length_map]

/-- A root in a branch, one in an outlet, and one in a component. -/
def spreadSource : String :=
  "<div><p v-if=\"a\">{{ x }}</p><p v-else>b</p><slot><b>c</b></slot><my-part><i>d</i></my-part></div>"

theorem spreadSource_rootsHoisted :
    (Web.settings).optimizes = true ∧
      (∀ root ∈ (compile Web.settings spreadSource).document.root,
        root.head.tag ≠ "script" ∧ root.Throughout EndsChain) ∧
      (compile Web.settings spreadSource).annotations.rootCount = 3 ∧
      3 ≤ (compile Web.settings spreadSource).fragments.length := by
  have written : ∀ root ∈ (compile Web.settings spreadSource).document.root,
      root.head.tag ≠ "script" ∧ root.Throughout EndsChain := by decide +kernel
  have count : (compile Web.settings spreadSource).annotations.rootCount = 3 := by decide +kernel
  have hoisted := compile_rootsHoisted Web.settings rfl spreadSource written
  exact ⟨rfl, written, count, count ▸ hoisted.2.2⟩

def scriptSource : String := "<script type=\"text/x\">a</script>"

def longChainSource : String :=
  "<div><p v-if=\"a\">{{ x }}</p><p v-else>b</p><p v-else>c</p></div>"

/-- A script is not written, and neither is a branch behind a last one. -/
theorem roots_unwritten : Web.settings.optimizes = true ∧
    ¬(compile Web.settings scriptSource).annotations.rootCount ≤
      (compile Web.settings scriptSource).fragments.length ∧
    ¬(compile Web.settings longChainSource).annotations.rootCount ≤
      (compile Web.settings longChainSource).fragments.length := by
  decide +kernel

end Templating.Rendering
