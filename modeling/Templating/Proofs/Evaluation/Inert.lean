import Templating.Evaluation.Render
import Templating.Proofs.Translation.Still
/-!
# Inert expressions evaluate alike

An inert expression mentions neither data nor fragments.  Whatever it is
evaluated with, its result is the same, and it leaves what is kept as it is.
-/
set_option autoImplicit false

namespace Templating.Evaluation

open Templating.Data Templating.Expression Templating.Rendering

/-! ## Steps with one result -/

section Steps

variable {α β : Type}

theorem run_bind (step : Eval α) (next : α → Eval β) (cache : FragmentCache) :
    (step >>= next) cache =
      match step cache with
      | (.ok result, after) => next result after
      | (.error halt, after) => (.error halt, after) := by
  simp only [bind, ExceptT.bind, ExceptT.mk, StateT.bind]
  rcases step cache with ⟨_ | result, after⟩ <;> rfl

/-- The step ends with the result whatever is kept, and keeps nothing more. -/
def Gives (step : Eval α) (result : Except Halt α) : Prop := ∀ cache, step cache = (result, cache)

/-- Both steps end with one result, of which `holds` is true, whatever is kept. -/
def Coincide (holds : α → Prop) (step other : Eval α) : Prop :=
  ∃ result, Gives step result ∧ Gives other result ∧ ∀ value, result = .ok value → holds value

variable {holds : α → Prop} {holdsThen : β → Prop}

theorem Coincide.pure {value : α} (given : holds value) :
    Coincide holds (Pure.pure value) (Pure.pure value) :=
  ⟨.ok value, fun _ => rfl, fun _ => rfl, fun _ same => Except.ok.inj same ▸ given⟩

theorem Coincide.throw (halt : Halt) : Coincide holds (MonadExcept.throw halt) (MonadExcept.throw halt) :=
  ⟨.error halt, fun _ => rfl, fun _ => rfl, fun _ same => by cases same⟩

theorem Coincide.ofExcept {result : Except Fault α} (given : ∀ value, result = .ok value → holds value) :
    Coincide holds (Eval.ofExcept result) (Eval.ofExcept result) := by
  cases result with
  | ok value => exact .pure (given value rfl)
  | error fault => exact .throw _

theorem Coincide.bind {step other : Eval α} {next otherNext : α → Eval β}
    (first : Coincide holds step other)
    (second : ∀ value, holds value → Coincide holdsThen (next value) (otherNext value)) :
    Coincide holdsThen (step >>= next) (other >>= otherNext) := by
  obtain ⟨result, gives, otherGives, given⟩ := first
  cases result with
  | ok value =>
    obtain ⟨final, nextGives, otherNextGives, givenThen⟩ := second value (given value rfl)
    refine ⟨final, fun cache => ?_, fun cache => ?_, givenThen⟩
    · rw [run_bind, gives]
      exact nextGives cache
    · rw [run_bind, otherGives]
      exact otherNextGives cache
  | error halt =>
    refine ⟨.error halt, fun cache => ?_, fun cache => ?_, fun _ same => by cases same⟩
    · rw [run_bind, gives]
    · rw [run_bind, otherGives]

end Steps

/-! ## Calls -/

def entrance (environment : Environment) (fragment : Expr → Eval Datum) : Nat → Entrance
  | 0 => ⟨fun _ _ => throw .tooDeep, fragment⟩
  | depth + 1 => ⟨evaluateCalls environment fragment depth, fragment⟩

theorem entrance_fragment (environment : Environment) (fragment : Expr → Eval Datum) (depth : Nat) :
    (entrance environment fragment depth).fragment = fragment := by
  cases depth <;> rfl

theorem evaluateCalls_entrance (environment : Environment) (fragment : Expr → Eval Datum)
    (depth : Nat) (scope : Scope) (source : Expr) :
    evaluateCalls environment fragment depth scope source =
      evaluate environment (entrance environment fragment depth) scope source := by
  cases depth <;> rfl

theorem evaluate_helperCall {environment : Environment} {enter : Entrance} {scope : Scope}
    {name : String} (helper : Text.startsWith ['_'] name.toList = true)
    (unhidden : scope.lookup name = none) (arguments : List Expr) :
    evaluate environment enter scope (helperCall name arguments) =
      evaluateAll environment enter scope arguments >>= callBuiltin environment enter name := by
  simp only [helperCall, evaluate, callName, unhidden, helper, if_true]

/-! ## Inert expressions -/

/-- A datum that is a function is one without parameters, bindings and data. -/
def IsHarmless (datum : Datum) : Prop :=
  ∀ parameters body scope, datum = .closure parameters body scope →
    parameters = [] ∧ scope = [] ∧ IsInert body

/-- Outlets are filled with the same, and inert bodies of functions end alike. -/
structure InertlyAlike (environment other : Environment) (enter otherEnter : Entrance) : Prop where
  slots : environment.slots = other.slots
  bodies : ∀ body, IsInert body →
    Coincide IsHarmless (enter.body [] body) (otherEnter.body [] body)

section Inert

variable {environment other : Environment} {enter otherEnter : Entrance}

theorem createElement_isHarmless {arguments : List Datum} {result : Datum}
    (made : createElement arguments = .ok result) : IsHarmless result := by
  intro parameters body scope same
  unfold createElement at made
  simp only at made
  split at made
  · split at made
    · cases made
    · cases made
      split at same <;> cases same
  · cases made
    cases same
  · cases made
    cases same
  · cases made

theorem callBuiltin_coincide (alike : InertlyAlike environment other enter otherEnter) {name : String} (made : name ∈ makers) {arguments : List Datum}
    (harmless : ∀ datum ∈ arguments, IsHarmless datum) :
    Coincide IsHarmless (callBuiltin environment enter name arguments)
      (callBuiltin other otherEnter name arguments) := by
  have node {result : Tree.Node} : IsHarmless (.node result) := fun _ _ _ same => by cases same
  simp only [makers, List.mem_cons, List.not_mem_nil, or_false] at made
  rcases made with rfl | rfl | rfl | rfl
  · exact .ofExcept fun _ same => createElement_isHarmless same
  · exact .pure node
  · exact .pure node
  · simp only [callBuiltin, renderOutlet, alike.slots]
    split
    · exact .pure fun _ _ _ same => by cases same
    · split
      · next parameters body scope given =>
        have inside : Datum.closure parameters body scope ∈ arguments := List.mem_of_getElem? given
        obtain ⟨rfl, rfl, inert⟩ := harmless _ inside _ _ _ rfl
        exact alike.bodies body inert
      · exact .pure fun _ _ _ same => by cases same

mutual

theorem evaluate_coincide (alike : InertlyAlike environment other enter otherEnter) (source : Expr)
    (inert : IsInert source) :
    Coincide IsHarmless (evaluate environment enter [] source)
      (evaluate other otherEnter [] source) := by
  match source, inert with
  | .literal value, _ =>
    simp only [evaluate]
    exact .pure fun _ _ _ same => by cases same
  | .call callee arguments, ⟨⟨name, made, same⟩, inertAll⟩ =>
    subst same
    simp only [evaluate]
    refine (evaluateAll_coincide alike arguments inertAll).bind fun values harmless => ?_
    have builtin : Text.startsWith ['_'] name.toList = true := by
      simp only [makers, List.mem_cons, List.not_mem_nil, or_false] at made
      rcases made with rfl | rfl | rfl | rfl <;> decide
    simp only [callName, List.lookup_nil, builtin, if_true]
    exact callBuiltin_coincide alike made harmless
  | .list items, inertAll =>
    simp only [evaluate]
    exact (evaluateAll_coincide alike items inertAll).bind fun _ _ =>
      .pure fun _ _ _ same => by cases same
  | .record entries, inertAll =>
    simp only [evaluate]
    exact (evaluateEntries_coincide alike [] entries inertAll).bind fun _ _ =>
      .pure fun _ _ _ same => by cases same
  | .function parameters body, ⟨bare, inertBody⟩ =>
    simp only [evaluate]
    refine .pure fun _ _ _ same => ?_
    cases same
    exact ⟨bare, rfl, inertBody⟩

theorem evaluateAll_coincide (alike : InertlyAlike environment other enter otherEnter)
    (items : List Expr) (inert : AllInert items) :
    Coincide (fun values => ∀ datum ∈ values, IsHarmless datum)
      (evaluateAll environment enter [] items) (evaluateAll other otherEnter [] items) := by
  match items, inert with
  | [], _ =>
    simp only [evaluateAll]
    exact .pure fun _ held => by cases held
  | item :: rest, ⟨first, others⟩ =>
    simp only [evaluateAll]
    refine (evaluate_coincide alike item first).bind fun value harmless => ?_
    exact (evaluateAll_coincide alike rest others).bind fun values harmlessAll =>
      .pure (List.forall_mem_cons.mpr ⟨harmless, harmlessAll⟩)

theorem evaluateEntries_coincide (alike : InertlyAlike environment other enter otherEnter)
    (done : List (String × Datum)) (entries : List (Key × Expr)) (inert : EntriesInert entries) :
    Coincide (fun _ => True) (evaluateEntries environment enter [] done entries)
      (evaluateEntries other otherEnter [] done entries) := by
  match entries, inert with
  | [], _ =>
    simp only [evaluateEntries]
    exact .pure trivial
  | (key, value) :: rest, ⟨⟨name, same⟩, first, others⟩ =>
    subst same
    simp only [evaluateEntries, evaluateKey, pure_bind]
    exact (evaluate_coincide alike value first).bind fun _ _ => evaluateEntries_coincide alike _ rest others

end

end Inert

theorem evaluateCalls_coincide {environment other : Environment}
    (slots : environment.slots = other.slots) (fragment otherFragment : Expr → Eval Datum)
    (depth : Nat) (source : Expr) (inert : IsInert source) :
    Coincide IsHarmless (evaluateCalls environment fragment depth [] source)
      (evaluateCalls other otherFragment depth [] source) := by
  induction depth generalizing source with
  | zero => exact evaluate_coincide ⟨slots, fun _ _ => .throw .tooDeep⟩ source inert
  | succ depth ih => exact evaluate_coincide ⟨slots, ih⟩ source inert

end Templating.Evaluation
