import Templating.Template.Builder
import Templating.Template.Web
/-!
# What rules leave alone

The rules of the library change neither the number of an element nor its tag and the
place of the tag, whether it is forbidden, or the codes of extensions, whatever they take
from its attributes.  Those that apply when it closes do not change its loop and its
conditions either.
-/
set_option autoImplicit false

namespace Templating.Template

open Templating.Text Templating.Data Templating.Markup

namespace Head

/-- The number, the tag and its place, whether the element is forbidden, and the codes of
extensions are the same. -/
structure Keeps (head rest : Head) : Prop where
  id : rest.id = head.id
  tag : rest.tag = head.tag
  span : rest.span = head.span
  isForbidden : rest.isForbidden = head.isForbidden
  extensions : rest.extensions = head.extensions

theorem Keeps.refl (head : Head) : head.Keeps head := ⟨rfl, rfl, rfl, rfl, rfl⟩

theorem Keeps.trans {head middle rest : Head} (first : head.Keeps middle)
    (second : middle.Keeps rest) : head.Keeps rest where
  id := second.id.trans first.id
  tag := second.tag.trans first.tag
  span := second.span.trans first.span
  isForbidden := second.isForbidden.trans first.isForbidden
  extensions := second.extensions.trans first.extensions

/-- The loop and the conditions are the same as well. -/
structure Leaves (head rest : Head) : Prop extends Keeps head rest where
  loop : rest.loop = head.loop
  condition : rest.condition = head.condition
  branchCondition : rest.branchCondition = head.branchCondition
  isElse : rest.isElse = head.isElse

theorem Leaves.refl (head : Head) : head.Leaves head := ⟨.refl head, rfl, rfl, rfl, rfl⟩

theorem Leaves.trans {head middle rest : Head} (first : head.Leaves middle)
    (second : middle.Leaves rest) : head.Leaves rest where
  toKeeps := first.toKeeps.trans second.toKeeps
  loop := second.loop.trans first.loop
  condition := second.condition.trans first.condition
  branchCondition := second.branchCondition.trans first.branchCondition
  isElse := second.isElse.trans first.isElse

theorem Leaves.ite {head rest other : Head} {condition : Prop} [Decidable condition]
    (first : head.Leaves rest) (second : head.Leaves other) :
    head.Leaves (if condition then rest else other) := by
  split
  · exact first
  · exact second

/-! ## Rules of the library -/

theorem takeFirst_leaves {accepts : SourceAttribute → Bool} {head rest : Head} {item : SourceAttribute}
    (taken : head.takeFirst? accepts = some (item, rest)) : head.Leaves rest := by
  obtain ⟨found, -, same⟩ := Option.map_eq_some_iff.mp taken
  cases same
  exact { Leaves.refl head with }

theorem takeExpression_leaves {name code : String} {span : Span} {head rest : Head}
    (taken : head.takeExpression? name = some (code, span, rest)) : head.Leaves rest := by
  unfold takeExpression? at taken
  split at taken
  · next bound =>
    cases taken
    exact takeFirst_leaves bound
  · obtain ⟨⟨item, left⟩, given, same⟩ := Option.map_eq_some_iff.mp taken
    cases same
    exact takeFirst_leaves given

theorem takeLoop_keeps (head : Head) : head.Keeps head.takeLoop.1 := by
  unfold takeLoop
  split
  · exact .refl head
  · next taken =>
    have kept := takeFirst_leaves taken
    simp only
    split <;> exact { kept with }

theorem takeCondition_keeps (head : Head) : head.Keeps head.takeCondition.1 := by
  unfold takeCondition
  split
  · next taken =>
    have kept := takeFirst_leaves taken
    simp only
    split <;> exact { kept with }
  · split
    · next taken => exact { takeFirst_leaves taken with }
    · split
      · next taken => exact { takeFirst_leaves taken with }
      · exact .refl head

theorem takeOnce_keeps (head : Head) : head.Keeps head.takeOnce := by
  unfold takeOnce
  split
  · next taken => exact { takeFirst_leaves taken with }
  · exact .refl head

theorem takeStructure_keeps (head : Head) : head.Keeps head.takeStructure.1 :=
  (takeLoop_keeps head).trans ((takeCondition_keeps _).trans (takeOnce_keeps _))

theorem takeKey_leaves (head : Head) : head.Leaves head.takeKey.1 := by
  unfold takeKey
  split
  · exact .refl head
  · next taken =>
    have kept := takeExpression_leaves taken
    split <;> exact { kept with }

theorem takeRef_leaves (head : Head) : head.Leaves head.takeRef := by
  unfold takeRef
  split
  · next taken => exact { takeFirst_leaves taken with }
  · split
    · next taken => exact { takeFirst_leaves taken with }
    · exact .refl head

theorem takeSlotTarget_leaves (head : Head) : head.Leaves head.takeSlotTarget.1 := by
  unfold takeSlotTarget
  split
  · next taken => exact { takeExpression_leaves taken with }
  · split
    · exact .refl head
    · next taken => exact { takeFirst_leaves taken with }

theorem takeOutlet_leaves (head : Head) : head.Leaves head.takeOutlet.1 := by
  unfold takeOutlet
  split
  · simp only
    split
    · next taken => exact { takeExpression_leaves taken with }
    · exact .refl head
  · exact .refl head

theorem takeComponent_leaves (head : Head) : head.Leaves head.takeComponent := by
  unfold takeComponent
  split
  · next taken => exact { takeExpression_leaves taken with }
  · exact .refl head

theorem addListener_leaves (listener : Listener) (head : Head) :
    head.Leaves (head.addListener listener).1 := by
  unfold addListener
  generalize (if listener.hasNameExpression then listener
    else eventMarks.foldl markEvent (renameClick listener)) = named
  simp only
  split
  · exact { Leaves.refl head with }
  · exact { Leaves.refl head with }

theorem addBinding_leaves (platform : Platform) (given : String) (modifiers : List String)
    (value : String) (span : Span) (head : Head) :
    head.Leaves (head.addBinding platform given modifiers value span).1 := by
  unfold addBinding
  have synced : head.Leaves (if !(AttributeName.argument given).2 && modifiers.contains "sync" then
      { head with
        listeners := head.listeners ++
          [⟨"update:" ++ AttributeName.camelize (AttributeName.argument given).1, value ++ "=$event", [],
            false, span⟩] } else head) := .ite { Leaves.refl head with } (.refl head)
  refine .ite ?_ ?_
  · exact { synced with }
  · exact { synced with }

theorem addDirective_leaves (rest rawName : String) (modifiers : List String) (value : String)
    (span : Span) (head : Head) :
    head.Leaves (head.addDirective rest rawName modifiers value span) := by
  unfold addDirective
  refine .ite ?_ ?_
  · exact { Leaves.refl head with }
  · exact { Leaves.refl head with }

theorem addAttribute_leaves (settings : Settings) (head : Head) (item : SourceAttribute) :
    head.Leaves (head.addAttribute settings item).1 := by
  unfold addAttribute
  simp only
  split
  · split
    · exact addBinding_leaves ..
    · split
      · exact addListener_leaves ..
      · split
        · exact addDirective_leaves ..
        · exact .refl head
  · exact { Leaves.refl head with }

theorem addAttributes_leaves (settings : Settings) (items : List SourceAttribute) (head : Head) :
    head.Leaves (addAttributes settings items head).1 := by
  induction items generalizing head with
  | nil => exact .refl head
  | cons item rest ih => exact (addAttribute_leaves settings head item).trans (ih _)

theorem complete_leaves (settings : Settings) (head : Head) :
    ∃ before, head.Leaves before ∧
      (applyExtensions settings.delimiters settings.extensions before).1.Leaves
        (head.complete settings).1 := by
  refine ⟨_, ((((takeKey_leaves head).trans (takeRef_leaves _)).trans (takeSlotTarget_leaves _)).trans
    (takeOutlet_leaves _)).trans (takeComponent_leaves _), ?_⟩
  unfold complete
  refine Leaves.trans ?_ (addAttributes_leaves settings _ _)
  exact { Leaves.refl _ with }

/-- Of the settings only the platform, the extensions and the delimiters count here. -/
theorem complete_congr {settings other : Settings} (platform : other.platform = settings.platform)
    (extensions : other.extensions = settings.extensions)
    (delimiters : other.delimiters = settings.delimiters) (head : Head) :
    head.complete other = head.complete settings := by
  have added (items : List SourceAttribute) (head : Head) :
      addAttributes other items head = addAttributes settings items head := by
    induction items generalizing head with
    | nil => rfl
    | cons item rest ih =>
      have same : head.addAttribute other item = head.addAttribute settings item := by
        rw [addAttribute, platform, delimiters]
        rfl
      simp only [addAttributes, same, ih]
  simp only [complete, added, extensions, delimiters]

end Head

theorem enter_keeps (outside : Builder) (fresh : Head) : fresh.Keeps (outside.enter fresh).1 := by
  unfold Builder.enter Builder.isVerbatim
  cases outside.verbatimRoot with
  | some id => exact { Head.Keeps.refl fresh with }
  | none =>
    simp only [Option.isSome_none, Bool.false_eq_true, if_false]
    cases taken : fresh.take? "v-pre" with
    | some found =>
      obtain ⟨item, rest⟩ := found
      exact { Head.takeFirst_leaves taken with }
    | none => exact Head.takeStructure_keeps fresh

/-! ## Extensions -/

def Extension.KeepsNumber (extension : Extension) : Prop :=
  ∀ (delimiters : Delimiters) (head : Head),
    (extension.transform delimiters head).1.id = head.id

section Field

/- A field of the head that no rule writes when the element closes. -/
variable {α : Type} {field : Head → α}
    (kept : ∀ {head rest : Head}, head.Leaves rest → field rest = field head)

def Extension.Preserves (field : Head → α) (extension : Extension) : Prop :=
  ∀ (delimiters : Delimiters) (head : Head),
    field (extension.transform delimiters head).1 = field head

theorem applyExtensions_preserves {extensions : List Extension}
    (preserves : ∀ extension ∈ extensions, extension.Preserves field) (delimiters : Delimiters)
    (head : Head) : field (Head.applyExtensions delimiters extensions head).1 = field head := by
  induction extensions generalizing head with
  | nil => rfl
  | cons extension others ih =>
    exact (ih (fun other held => preserves other (List.mem_cons_of_mem extension held)) _).trans
      (preserves extension List.mem_cons_self delimiters head)

include kept

theorem complete_preserves {settings : Settings}
    (preserves : ∀ extension ∈ settings.extensions, extension.Preserves field) (head : Head) :
    field (head.complete settings).1 = field head := by
  obtain ⟨before, first, last⟩ := Head.complete_leaves settings head
  rw [kept last, applyExtensions_preserves preserves, kept first]

variable (coded : ∀ (head : Head) (codes : Dictionary String),
  field { head with extensions := codes } = field head)

include coded

theorem takeBound_preserves (name : String) (boundCode : String → String) (head : Head)
    (diagnostics : List Diagnostic) :
    field (match head.takeBinding? name with
      | none => (head, diagnostics)
      | some (item, rest) =>
        ({ rest with
            extensions := Dictionary.insert name (boundCode (item.value.getD "")) rest.extensions },
          diagnostics)).1 = field head := by
  split
  · rfl
  · next taken => exact (coded _ _).trans (kept (Head.takeFirst_leaves taken))

theorem takeBoth_preserves (name staticKey : String) (staticCode boundCode : String → String)
    (delimiters : Delimiters) (head : Head) :
    field (Web.takeBoth name staticKey staticCode boundCode delimiters head).1 = field head := by
  unfold Web.takeBoth
  cases taken : head.take? name with
  | none => exact takeBound_preserves kept coded name boundCode head []
  | some found =>
    obtain ⟨item, rest⟩ := found
    exact (takeBound_preserves kept coded name boundCode _ _).trans
      ((coded _ _).trans (kept (Head.takeFirst_leaves taken)))

end Field

theorem takeBoth_id (name staticKey : String) (staticCode boundCode : String → String)
    (delimiters : Delimiters) (head : Head) :
    (Web.takeBoth name staticKey staticCode boundCode delimiters head).1.id = head.id :=
  takeBoth_preserves (fun leaves => leaves.id) (fun _ _ => rfl) name staticKey staticCode boundCode delimiters
    head

theorem complete_extensions {settings : Settings} (none : settings.extensions = []) (head : Head) :
    (head.complete settings).1.extensions = head.extensions :=
  complete_preserves (fun leaves => leaves.extensions) (fun _ held => by simp [none] at held) head

/-! ## Closing -/

theorem mem_withoutTrailingSpaces {children : List Node} {child : Element}
    (held : .element child ∈ children) : .element child ∈ withoutTrailingSpaces children := by
  have whole := List.takeWhile_append_dropWhile (p := Node.isBlankSpace) (l := children.reverse)
  have inside : .element child ∈ children.reverse.takeWhile Node.isBlankSpace ++
      children.reverse.dropWhile Node.isBlankSpace := whole.symm ▸ List.mem_reverse.mpr held
  rcases List.mem_append.mp inside with blank | kept
  · cases List.all_eq_true.mp List.all_takeWhile _ blank
  · exact List.mem_reverse.mpr kept

/-- What becomes of an element when it closes: rules are applied to its head, and spaces at
the end of its children are left out. -/
structure Element.ClosesAs (settings : Settings) (element closed : Element) : Prop where
  branches : closed.branches = element.branches
  children : closed.children.Sublist element.children
  elements : ∀ child, .element child ∈ element.children → .element child ∈ closed.children
  field : ∀ {α : Type} {field : Head → α},
    (∀ {head rest : Head}, head.Leaves rest → field rest = field head) →
      (∀ extension ∈ settings.extensions, extension.Preserves field) →
        field closed.head = field element.head

theorem Builder.close_eq (settings : Settings) (builder : Builder) (element : Element) :
    ∃ closed diagnostics, element.ClosesAs settings closed ∧
      builder.close settings element =
        ((builder.report diagnostics).place closed).leave settings closed.head := by
  let final := if builder.isVerbatim then (element.head, []) else element.head.complete settings
  let children := if builder.isPreformatted then element.children
    else withoutTrailingSpaces element.children
  refine ⟨{ element with head := final.1, children }, final.2, ⟨rfl, ?_, ?_, ?_⟩, rfl⟩
  · simp only [children]
    split
    · exact List.Sublist.refl _
    · rw [withoutTrailingSpaces, ← List.reverse_sublist, List.reverse_reverse]
      exact List.dropWhile_sublist _
  · intro child held
    simp only [children]
    split
    · exact held
    · exact mem_withoutTrailingSpaces held
  · intro α field kept preserves
    simp only [final]
    split
    · rfl
    · exact complete_preserves kept preserves element.head

end Templating.Template
