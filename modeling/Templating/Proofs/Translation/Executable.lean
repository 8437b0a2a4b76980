import Templating.Evaluation.Compiler
import Templating.Proofs.Translation.Listeners
import Templating.Proofs.Translation.Programs
/-!
# Clean templates are executable

A template without errors becomes functions, where its heads leave no gap: some
attributes may lack a value, and some code is never looked at by the check.
-/
set_option autoImplicit false

namespace Templating.Evaluation

open Templating.Text Templating.Template Templating.Expression Templating.Rendering

/-! ## Gaps of the check -/

/-- Bindings have values, code that the check passes over is code all the same,
and no listener is cut at a comma. -/
structure LeavesNoGap (head : Head) : Prop where
  filled : ∀ entry ∈ head.given, IsFilled entry
  unchecked : ∀ code ∈ uncheckedCodes head, readsAlone code = true
  unbroken : ∀ listener ∈ head.listeners ++ head.nativeListeners, Listener.IsUnbroken listener

theorem leavesNoGap_iff (head : Head) : LeavesNoGap head ↔
    (∀ entry ∈ head.given, IsFilled entry) ∧
      (∀ code ∈ uncheckedCodes head, readsAlone code = true) ∧
      ∀ listener ∈ head.listeners ++ head.nativeListeners, Listener.IsUnbroken listener :=
  ⟨fun whole => ⟨whole.filled, whole.unchecked, whole.unbroken⟩,
    fun ⟨filled, unchecked, unbroken⟩ => ⟨filled, unchecked, unbroken⟩⟩

instance : DecidablePred LeavesNoGap := fun head => decidable_of_iff _ (leavesNoGap_iff head).symm

theorem isBalanced_of_listenerProblems {source raw : String}
    (checked : listenerProblems source raw = []) : IsBalanced source := by
  rw [listenerProblems, List.append_eq_nil_iff] at checked
  have lexical : lexicalProblem? source raw = none := by
    cases found : lexicalProblem? source raw with
    | none => rfl
    | some problem => simp [found] at checked
  unfold lexicalProblem? at lexical
  split at lexical
  · cases lexical
  · exact Option.map_eq_none_iff.mp lexical

theorem isBalanced_of_listens {head : Head} (checked : head.check = []) {name value : String}
    (held : Given.holds head.given name value) (listens : isListenerName name = true) :
    IsBalanced value := by
  by_cases empty : value = ""
  · rw [empty]
    decide
  have problems := attributeProblems_of_check checked held
  have front : (∃ rest, name.toList = '@' :: rest) ∨ ∃ rest, name.toList = "v-on:".toList ++ rest := by
    simp only [isListenerName, Bool.or_eq_true, after_isSome_iff] at listens
    rcases listens with ⟨rest, split⟩ | ⟨rest, split⟩
    · exact .inl ⟨rest, split.symm⟩
    · exact .inr ⟨rest, split.symm⟩
  refine @isBalanced_of_listenerProblems _ (name ++ "=\"" ++ value ++ "\"") ?_
  rcases front with ⟨rest, split⟩ | ⟨rest, split⟩ <;>
    simpa [attributeProblems, empty, AttributeName.isDirective, AttributeName.after?, split,
      dropLeading?, ← String.toList_inj] using problems

theorem isBalanced_of_listenerFrom {head : Head} (checked : head.check = [])
    (filled : ∀ entry ∈ head.given, IsFilled entry) {listener : Listener}
    (stems : ListenerFrom head.given listener) : IsBalanced listener.source := by
  cases stems with
  | event name listens held bracketed => exact isBalanced_of_listens checked held listens
  | sync name value binds held same plain =>
    rw [same]
    exact (isBalanced_of_readsAlone (readsAlone_of_held checked filled held binds)).append (by decide)

theorem completes_of_leavesNoGap : Completes LeavesNoGap := by
  intro head ready checked whole
  have groups {listeners : List Listener} (inside : listeners ⊆ head.listeners ++ head.nativeListeners)
      (stems : ∀ listener ∈ listeners, ListenerFrom head.given listener) :
      ∀ group ∈ listenerGroups listeners, GroupReads group := by
    refine groupReads_of_balanced
      (fun listener held => isBalanced_of_listenerFrom checked whole.filled (stems listener held))
      (fun listener held => whole.unbroken listener (inside held)) fun listener held computed => ?_
    refine whole.unchecked listener.event ?_
    simp only [uncheckedCodes, List.mem_append, List.mem_map, List.mem_filter]
    exact .inl (.inl (.inr ⟨listener, ⟨List.mem_append.mp (inside held), computed⟩, rfl⟩))
  exact ⟨whole.filled, whole.unchecked, groups (List.subset_append_left _ _) ready.listeners,
    groups (List.subset_append_right _ _) ready.nativeListeners⟩

/-! ## Functions -/

theorem fragmentFunctions_of_read {fragments : List String} {programs : List Expr}
    (read : fragments.map parseProgram? = programs.map some) (index : Nat) :
    ∃ functions, fragmentFunctions index fragments = .ok functions := by
  induction fragments generalizing index programs with
  | nil => exact ⟨[], rfl⟩
  | cons source rest ih =>
    cases programs with
    | nil => cases read
    | cons program others =>
      rw [List.map_cons, List.map_cons, List.cons.injEq] at read
      obtain ⟨functions, made⟩ := ih read.2 (index + 1)
      exact ⟨⟨source, program⟩ :: functions,
        by simp [fragmentFunctions, SourceFunction.ofSource?, read.1, made, Except.map]⟩

theorem ofTemplate_of_readsAsMeant {settings : Settings} {template : String}
    (reads : ReadsAsMeant settings (compile settings template)) :
    ∃ functions, Functions.ofTemplate settings template = .ok functions := by
  obtain ⟨fragments, made⟩ := fragmentFunctions_of_read reads.fragments 0
  have body : SourceFunction.ofSource? (compile settings template).render =
      some ⟨(compile settings template).render, ((compile settings template).meaning settings).1⟩ := by
    rw [SourceFunction.ofSource?, reads.render, Option.map_some]
  rw [Functions.ofTemplate, Functions.ofSources, body]
  exact ⟨⟨_, fragments, _⟩, by rw [made]; rfl⟩

theorem make_of_ofTemplate {settings : Settings} {template : String} {functions : Functions}
    (made : Functions.ofTemplate settings template = .ok functions) (compiler : Compiler)
    (key : Option FunctionKey) :
    (compiler.make key settings template).1 = .ok ⟨compiler.made, functions⟩ := by
  delta Compiler.make
  rw [made]

theorem functions_of_ofTemplate {compiler : Compiler} {overlay : Overlay} {template : String}
    (made : ∃ functions,
      Functions.ofTemplate (compiler.settings.overlaid overlay) template = .ok functions) :
    ∃ handle, (compiler.functions overlay template).1 = .ok handle := by
  obtain ⟨functions, made⟩ := made
  have fresh (key : Option FunctionKey) := make_of_ofTemplate made compiler key
  cases plain : overlay.isPlain with
  | false => exact ⟨⟨compiler.made, functions⟩, by
      simp only [Compiler.functions, plain, Bool.false_eq_true, if_false, fresh]⟩
  | true =>
    cases found : Compiler.find?
        (.of (compiler.settings.overlaid overlay) template) compiler.kept with
    | some handle => exact ⟨handle, by simp only [Compiler.functions, plain, if_true, found]⟩
    | none => exact ⟨⟨compiler.made, functions⟩, by
      simp only [Compiler.functions, plain, if_true, found, fresh]⟩

/-- A template without errors becomes functions, whatever the compiler has kept,
where its heads leave no gap. -/
theorem functions_of_clean {compiler : Compiler} (web : compiler.settings = Web.settings)
    {overlay : Overlay} (plain : overlay.isPlain = true) (template : String)
    (clean : errorsOf (compile (Web.settings.overlaid overlay) template).diagnostics = [])
    (whole : (compile (Web.settings.overlaid overlay) template).document.EveryHead LeavesNoGap) :
    ∃ handle, (compiler.functions overlay template).1 = .ok handle := by
  refine functions_of_ofTemplate (web ▸ ofTemplate_of_readsAsMeant ?_)
  have known : IsBase Web.settings := .inl rfl
  have formed := parse_formed (base_isFaithful known plain) (trimmed template)
  rw [← (compile_parts (Web.settings.overlaid overlay) template).1] at formed
  exact readsAsMeant_of_sound (base_standard known plain) fun root held =>
    soundElement_of_check completes_of_leavesNoGap root (formed root held)
      (check_of_clean clean root held) (whole root held)

/-- A list with keys, a listener and an interpolation becomes functions. -/
theorem listening_list_functions :
    let template := "<ul><li v-for=\"x in xs\" :key=\"x\" @click=\"go(x), a\">\x7b\x7b x \x7d\x7d</li></ul>"
    let compiler := Compiler.new Web.settings
    compiler.settings = Web.settings ∧ Overlay.empty.isPlain = true ∧
      errorsOf (compile (Web.settings.overlaid .empty) template).diagnostics = [] ∧
      (compile (Web.settings.overlaid .empty) template).document.EveryHead LeavesNoGap ∧
      ∃ handle, (compiler.functions .empty template).1 = .ok handle := by
  intro template compiler
  have clean : errorsOf (compile (Web.settings.overlaid .empty) template).diagnostics = [] := by
    decide +kernel
  have whole : (compile (Web.settings.overlaid .empty) template).document.EveryHead LeavesNoGap := by
    decide +kernel
  exact ⟨rfl, rfl, clean, whole, functions_of_clean rfl rfl template clean whole⟩

/-- The second of two slot attributes becomes a directive whose value the check
does not look at. -/
theorem second_slot_no_functions :
    let template := "<p slot=\"a\" v-slot:b=\"c d\"></p>"
    errorsOf (compile Web.settings template).diagnostics = [] ∧
      ¬ ∃ handle, ((Compiler.new Web.settings).functions .empty template).1 = .ok handle := by
  intro template
  refine ⟨by decide +kernel, ?_⟩
  have unread : (parseProgram? (compile (Web.settings.overlaid .empty) template).render).isNone = true := by
    decide +kernel
  rintro ⟨handle, made⟩
  have none : SourceFunction.ofSource? (compile (Web.settings.overlaid .empty) template).render = none := by
    rw [SourceFunction.ofSource?, Option.isNone_iff_eq_none.mp unread]
    rfl
  have failed : Functions.ofTemplate (Web.settings.overlaid .empty) template =
      .error (.render (compile (Web.settings.overlaid .empty) template).render) := by
    rw [Functions.ofTemplate, Functions.ofSources, none]
  have missing : Compiler.find? (.of (Web.settings.overlaid .empty) template)
      (Compiler.new Web.settings).kept = .none := rfl
  have plain : Overlay.empty.isPlain = true := rfl
  have settings : (Compiler.new Web.settings).settings = Web.settings := rfl
  simp only [Compiler.functions, plain, settings, missing, if_true] at made
  delta Compiler.make at made
  rw [failed] at made
  cases made

end Templating.Evaluation
