import Templating.Proofs.Template.Numbering
import Templating.Proofs.Translation.Checked
import Templating.Rendering.Compilation
/-!
# Programs of clean templates

A template without errors becomes source that is read as its meaning, where the
values of slot attributes that have become directives are expressions.  The
check does not look at them.
-/
set_option autoImplicit false

namespace Templating.Rendering

open Templating.Text Templating.Data Templating.Template Templating.Expression

/-! ## Settings -/

def IsBase (base : Settings) : Prop := base = Web.settings ∨ base = .neutral

theorem overlaid_plain {base : Settings} {overlay : Overlay} (plain : overlay.isPlain = true) :
    (base.overlaid overlay).extensions = base.extensions ∧
      (base.overlaid overlay).directives = base.directives := by
  simp only [Overlay.isPlain, Bool.and_eq_true, List.isEmpty_iff] at plain
  simp [Settings.overlaid, plain, Dictionary.merge]

theorem directiveOutcome_web (directive : Directive) {settings : Settings}
    (same : settings.directives = Web.settings.directives) :
    ∀ entry ∈ (directiveOutcome settings directive).props,
      directive.value ≠ "" ∧ entry.2 = "_s(" ++ directive.value ++ ")" := by
  have handlers : Web.settings.directives =
      [("cloak", Web.droppedDirective), ("html", Web.propDirective "innerHTML"),
        ("text", Web.propDirective "textContent")] := rfl
  have propsOf (prop : String) : ∀ entry ∈ (Web.propDirective prop directive).props,
      directive.value ≠ "" ∧ entry.2 = "_s(" ++ directive.value ++ ")" := by
    intro entry held
    simp only [Web.propDirective] at held
    split at held
    · cases held
    · next given =>
      rw [List.mem_singleton] at held
      exact ⟨by simpa using given, by rw [held]⟩
  unfold directiveOutcome Settings.directive?
  rw [same, handlers]
  simp only [Dictionary.find?]
  split
  · next handler found =>
    split at found
    · cases found
      exact fun _ held => by cases held
    · split at found
      · cases found
        exact propsOf "innerHTML"
      · split at found
        · cases found
          exact propsOf "textContent"
        · cases found
  · exact fun _ held => by cases held

section Base

variable {base : Settings} (known : IsBase base) {overlay : Overlay} (plain : overlay.isPlain = true)

include known plain

theorem base_standard : StandardSettings (base.overlaid overlay) := by
  obtain ⟨extensions, directives⟩ := @overlaid_plain base _ plain
  rcases known with rfl | rfl
  · exact ⟨.inr extensions, fun directive => directiveOutcome_web directive directives⟩
  · refine ⟨.inl extensions, fun directive entry held => ?_⟩
    have none : (Settings.neutral.overlaid overlay).directives = [] := directives
    simp [directiveOutcome, Settings.directive?, none, Dictionary.find?] at held

end Base

/-! The extensions that come with the program do what the analysis relies on. -/

section Bare

variable {base : Settings} (known : IsBase base) {overlay : Overlay} (bare : overlay.extensions = [])

include known bare

theorem base_extensions {extension : Extension}
    (held : extension ∈ (base.overlaid overlay).extensions) :
    extension = Web.classExtension ∨ extension = Web.styleExtension := by
  have extended : (base.overlaid overlay).extensions = base.extensions := by
    simp [Settings.overlaid, bare]
  rw [extended] at held
  rcases known with rfl | rfl
  · have listed : Web.settings.extensions = [Web.classExtension, Web.styleExtension] := rfl
    rw [listed, List.mem_cons, List.mem_singleton] at held
    exact held
  · cases held

theorem bare_isFaithful :
    ∀ extension ∈ (base.overlaid overlay).extensions, extension.IsFaithful := by
  intro extension held
  rcases base_extensions known bare held with rfl | rfl
  · exact classExtension_isFaithful
  · exact styleExtension_isFaithful

theorem bare_keepsNumber :
    ∀ extension ∈ (base.overlaid overlay).extensions, extension.KeepsNumber := by
  intro extension held
  rcases base_extensions known bare held with rfl | rfl
  · exact takeBoth_id _ _ _ _
  · exact takeBoth_id _ _ _ _

end Bare

section Base

variable {base : Settings} (known : IsBase base) {overlay : Overlay} (plain : overlay.isPlain = true)

include known plain

theorem base_isFaithful :
    ∀ extension ∈ (base.overlaid overlay).extensions, extension.IsFaithful := by
  simp only [Overlay.isPlain, Bool.and_eq_true, List.isEmpty_iff] at plain
  exact bare_isFaithful known plain.1

theorem base_keepsNumber :
    ∀ extension ∈ (base.overlaid overlay).extensions, extension.KeepsNumber := by
  simp only [Overlay.isPlain, Bool.and_eq_true, List.isEmpty_iff] at plain
  exact bare_keepsNumber known plain.1

end Base

/-! ## Reports of the check -/

mutual

theorem isError_of_mem_check (element : Element) : ∀ diagnostic ∈ element.check,
    diagnostic.isError = true := by
  match element with
  | ⟨head, children, branches⟩ =>
    intro diagnostic held
    rw [Element.check] at held
    split at held
    · cases held
    · rw [List.mem_append, List.mem_append] at held
      rcases held with (held | held) | held
      · obtain ⟨problem, -, rfl⟩ := List.mem_map.mp held
        rfl
      · exact isError_of_mem_checkNodes children diagnostic held
      · exact isError_of_mem_checkBranches branches diagnostic held

theorem isError_of_mem_checkNodes (nodes : List Node) : ∀ diagnostic ∈ checkNodes nodes,
    diagnostic.isError = true := by
  match nodes with
  | [] => exact fun _ held => by cases held
  | node :: rest =>
    intro diagnostic held
    rw [checkNodes, List.mem_append] at held
    rcases held with held | held
    · match node with
      | .element element => exact isError_of_mem_check element diagnostic held
      | .text run =>
        obtain ⟨problem, -, rfl⟩ := List.mem_map.mp held
        rfl
      | .comment _ => cases held
    · exact isError_of_mem_checkNodes rest diagnostic held

theorem isError_of_mem_checkBranches (branches : List Branch) :
    ∀ diagnostic ∈ checkBranches branches, diagnostic.isError = true := by
  match branches with
  | [] => exact fun _ held => by cases held
  | ⟨_, block⟩ :: rest =>
    intro diagnostic held
    rw [checkBranches, List.mem_append] at held
    rcases held with held | held
    · exact isError_of_mem_check block diagnostic held
    · exact isError_of_mem_checkBranches rest diagnostic held

end

theorem compile_parts (settings : Settings) (template : String) :
    let compiled := compile settings template
    compiled.document = (Document.parse settings (trimmed template)).1 ∧
      compiled.annotations =
        (if settings.optimizes then compiled.document.analyze settings else .empty) ∧
      compiled.program = (generate settings compiled.annotations compiled.document).1 ∧
      ∃ distance, compiled.diagnostics =
        ((Document.parse settings (trimmed template)).2 ++
            (generate settings compiled.annotations compiled.document).2 ++
          compiled.document.check).map (Diagnostic.relocate distance) := by
  unfold compile
  generalize Document.parse settings (trimmed template) = parsed
  obtain ⟨document, reading⟩ := parsed
  simp only
  generalize (if settings.optimizes then document.analyze settings else .empty) = annotations
  generalize generate settings annotations document = generated
  exact ⟨trivial, trivial, trivial, _, rfl⟩

theorem reading_of_clean {settings : Settings} {template : String}
    (clean : errorsOf (compile settings template).diagnostics = []) :
    errorsOf (Document.parse settings (trimmed template)).2 = [] := by
  obtain ⟨-, -, -, distance, reported⟩ := compile_parts settings template
  rw [reported, errorsOf, List.filter_eq_nil_iff] at clean
  refine List.filter_eq_nil_iff.mpr fun diagnostic held isError => ?_
  refine clean (diagnostic.relocate distance) (List.mem_map_of_mem ?_) isError
  exact List.mem_append_left _ (List.mem_append_left _ held)

theorem meaning_eq (settings : Settings) (compiled : Compiled) :
    compiled.meaning settings =
      let translated := (documentMeaning ⟨settings, compiled.annotations⟩ compiled.document).run .empty
      (translated.1, translated.2.fragments) := rfl

theorem check_of_clean {settings : Settings} {template : String}
    (clean : errorsOf (compile settings template).diagnostics = []) :
    ∀ root ∈ (compile settings template).document.root, root.check = [] := by
  obtain ⟨-, -, -, distance, reported⟩ := compile_parts settings template
  generalize compile settings template = compiled at clean reported ⊢
  intro root held
  rw [List.eq_nil_iff_forall_not_mem]
  intro diagnostic inside
  have isError := isError_of_mem_check root diagnostic inside
  have whole : diagnostic ∈ compiled.document.check := by
    rw [Document.check, held]
    exact inside
  rw [errorsOf, List.filter_eq_nil_iff, reported] at clean
  exact clean (diagnostic.relocate distance)
    (List.mem_map_of_mem (List.mem_append_right _ whole)) isError

/-! ## Reading programs back -/

/-- All captured code of a template stands for an expression, and its programs
are read as the meaning of its document. -/
structure ReadsAsMeant (settings : Settings) (compiled : Compiled) : Prop where
  captured : SoundDocument compiled.document
  render : parseProgram? compiled.render = some (compiled.meaning settings).1
  fragments : compiled.fragments.map parseProgram? = (compiled.meaning settings).2.map some

theorem readsAsMeant_of_sound {settings : Settings} (standard : StandardSettings settings)
    {template : String} (sound : SoundDocument (compile settings template).document) :
    ReadsAsMeant settings (compile settings template) := by
  obtain ⟨-, -, written, -⟩ := compile_parts settings template
  generalize compile settings template = compiled at sound written ⊢
  obtain ⟨render, fragments⟩ := program_eq_meaning standard compiled.annotations sound
  rw [← written] at render fragments
  refine ⟨sound, render, ?_⟩
  rw [Compiled.fragments, List.map_map, ← List.forall₂_eq_eq_eq, List.forall₂_map_left_iff,
    List.forall₂_map_right_iff]
  exact fragments

/-- Bindings and branches have values, no name holds an expression, and nothing
listens. -/
def WithinLimits (head : Head) : Prop :=
  (∀ entry ∈ head.given, IsFilled entry ∧ '[' ∉ entry.1.toList) ∧
    head.listeners = [] ∧ head.nativeListeners = []

instance (entry : String × Option String) : Decidable (IsFilled entry) :=
  inferInstanceAs (Decidable (isBindingName entry.1 = true ∨ entry.1 = "v-else-if" →
    entry.2.getD "" ≠ ""))

instance : DecidablePred WithinLimits := fun head =>
  inferInstanceAs (Decidable ((∀ entry ∈ head.given, IsFilled entry ∧ '[' ∉ entry.1.toList) ∧
    head.listeners = [] ∧ head.nativeListeners = []))

/-- The values of slot attributes that have become directives are expressions. -/
def SlotValuesRead (head : Head) : Prop :=
  ∀ directive ∈ head.directives, Head.isSlotName directive.rawName = true →
    directive.value ≠ "" → readsAlone directive.value = true

instance : DecidablePred SlotValuesRead := fun head =>
  inferInstanceAs (Decidable (∀ directive ∈ head.directives,
    Head.isSlotName directive.rawName = true → directive.value ≠ "" →
      readsAlone directive.value = true))

theorem unbracketed_attribute {head : Head} (limits : WithinLimits head) {item : Attribute}
    (stems : AttributeFrom head.given item) : item.hasNameExpression = false := by
  cases stems with
  | literal plain => exact (Bool.or_eq_false_iff.mp plain).2
  | binding name binds held bound bracketed =>
    obtain ⟨given, inside, -⟩ := held
    by_contra computed
    exact (limits.1 _ inside).2 (bracketed (by simpa using computed))

theorem completes_of_limits : Completes fun head => WithinLimits head ∧ SlotValuesRead head := by
  rintro head ready checked ⟨limits, slots⟩
  have filled : ∀ entry ∈ head.given, IsFilled entry := fun entry held => (limits.1 entry held).1
  refine ⟨filled, fun code held => ?_, ?_, ?_⟩
  · simp only [uncheckedCodes, limits.2.1, limits.2.2, List.mem_append, List.mem_map,
      List.mem_flatMap, List.mem_filter, List.append_nil, List.not_mem_nil, false_and, exists_false,
      or_false, Option.mem_toList, Bool.and_eq_true, bne_iff_ne] at held
    obtain ((⟨item, ⟨given, computed⟩, -⟩ | ⟨directive, ⟨given, computed⟩, -⟩) | target) |
      ⟨directive, ⟨given, slot, valued⟩, rfl⟩ := held
    · have stems : AttributeFrom head.given item := given.elim (ready.attributes item) (ready.props item)
      rw [unbracketed_attribute limits stems] at computed
      cases computed
    · have stems := ready.directives directive given
      obtain ⟨entry, inside, -⟩ := stems.held
      exact absurd (stems.bracketed computed) (limits.1 _ inside).2
    · cases ready.slotTarget code target with
      | code stems => exact code_readsAlone checked filled stems
      | inName name value held bracketed =>
        obtain ⟨entry, inside, -⟩ := held
        exact absurd bracketed (limits.1 _ inside).2
    · exact slots directive given slot valued
  · simp [limits.2.1, listenerGroups]
  · simp [limits.2.2, listenerGroups]

mutual

theorem everyHead_of_sound (element : Element) (sound : SoundElement element) :
    element.EveryHead SoundHead := by
  match element, sound with
  | ⟨head, children, branches⟩, ⟨here, below, beside⟩ =>
    exact .inr ⟨here, everyHeadOfNodes_of_sound children below,
      everyHeadOfBranches_of_sound branches beside⟩

theorem everyHeadOfNodes_of_sound (nodes : List Node) (sound : SoundNodes nodes) :
    EveryHeadOfNodes SoundHead nodes := by
  match nodes with
  | [] => trivial
  | .element element :: rest =>
    exact ⟨everyHead_of_sound element sound.1, everyHeadOfNodes_of_sound rest sound.2⟩
  | .text run :: rest => exact ⟨trivial, everyHeadOfNodes_of_sound rest sound.2⟩
  | .comment comment :: rest => exact ⟨trivial, everyHeadOfNodes_of_sound rest sound.2⟩

theorem everyHeadOfBranches_of_sound (branches : List Branch) (sound : SoundBranches branches) :
    EveryHeadOfBranches SoundHead branches := by
  match branches with
  | [] => trivial
  | ⟨condition, block⟩ :: rest =>
    exact ⟨everyHead_of_sound block sound.2.1, everyHeadOfBranches_of_sound rest sound.2.2⟩

end

theorem SoundHead.slotValuesRead {head : Head} (sound : SoundHead head) : SlotValuesRead head := by
  intro directive held slot valued
  refine sound.directives directive held directive.value ?_
  simp [directiveSplices, valued]

/-- Within the limits a clean template is read as it is meant, where the values of
its slot attributes that have become directives are expressions. -/
theorem readsAsMeant_of_limits {base : Settings} (known : IsBase base) {overlay : Overlay}
    (plain : overlay.isPlain = true) (template : String)
    (clean : errorsOf (compile (base.overlaid overlay) template).diagnostics = [])
    (limits : (compile (base.overlaid overlay) template).document.EveryHead WithinLimits)
    (slots : (compile (base.overlaid overlay) template).document.EveryHead SlotValuesRead) :
    ReadsAsMeant (base.overlaid overlay) (compile (base.overlaid overlay) template) := by
  have checked := check_of_clean clean
  have formed := parse_formed (base_isFaithful known plain) (trimmed template)
  rw [← (compile_parts (base.overlaid overlay) template).1] at formed
  refine readsAsMeant_of_sound (base_standard known plain) fun root held => ?_
  have every := Document.EveryHead.and (fun _ one two => And.intro one two) limits slots
  exact soundElement_of_check completes_of_limits root (formed root held) (checked root held)
    (every root held)

/-- The programs of a clean template are read as its meaning exactly where the
values of its slot attributes that have become directives are expressions. -/
theorem readsAsMeant_iff_slotValuesRead {base : Settings} (known : IsBase base) {overlay : Overlay}
    (plain : overlay.isPlain = true) (template : String)
    (clean : errorsOf (compile (base.overlaid overlay) template).diagnostics = [])
    (limits : (compile (base.overlaid overlay) template).document.EveryHead WithinLimits) :
    ReadsAsMeant (base.overlaid overlay) (compile (base.overlaid overlay) template) ↔
      (compile (base.overlaid overlay) template).document.EveryHead SlotValuesRead := by
  constructor
  · intro reads root held
    have every := everyHead_of_sound root (reads.captured root held)
    exact Element.EveryHead.and (fun _ sound _ => SoundHead.slotValuesRead sound) root every every
  · exact readsAsMeant_of_limits known plain template clean limits

theorem list_readsAsMeant :
    let settings := Web.settings.overlaid .empty
    let compiled := compile settings
      "<ul><li v-for=\"(x, i) in xs\" :key=\"i\">\x7b\x7b x \x7d\x7d</li></ul>"
    errorsOf compiled.diagnostics = [] ∧ compiled.document.EveryHead WithinLimits ∧
      ReadsAsMeant settings compiled := by
  intro settings compiled
  have clean : errorsOf compiled.diagnostics = [] := by decide +kernel
  have limits : compiled.document.EveryHead WithinLimits := by decide +kernel
  have slots : compiled.document.EveryHead SlotValuesRead := by decide +kernel
  exact ⟨clean, limits, (readsAsMeant_iff_slotValuesRead (.inl rfl) rfl _ clean limits).mpr slots⟩

/-- The second of two slot attributes becomes a directive, and its value breaks
the render source unnoticed. -/
theorem second_slot_not_readsAsMeant :
    let compiled := compile Web.settings "<p slot=\"a\" v-slot:b=\"c d\"></p>"
    errorsOf compiled.diagnostics = [] ∧ compiled.document.EveryHead WithinLimits ∧
      parseProgram? compiled.render = none ∧ ¬ ReadsAsMeant Web.settings compiled := by
  intro compiled
  have unread : parseProgram? compiled.render = none := by
    rw [← Option.isNone_iff_eq_none]
    decide +kernel
  refine ⟨by decide +kernel, by decide +kernel, unread, fun reads => ?_⟩
  rw [reads.render] at unread
  cases unread

end Templating.Rendering
