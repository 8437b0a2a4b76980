import Templating.Proofs.Translation.Drafts
import Templating.Proofs.Translation.Inlining
import Templating.Proofs.Translation.Programs
/-!
# Indices of fragments and numbers of subtrees

Of all calls that are written, in the render function and in the fragments, each
fragment has just one, and a fragment calls earlier ones only.  The numbers of
subtrees that are rendered once are given out without a gap.

The invariant is on a draft together with the code that is at hand: whatever has
been kept is called from one of the two.  Each step of a transition keeps it.
-/
set_option autoImplicit false

namespace Templating.Rendering

open Templating.Text Templating.Template

/-- The numbers of subtrees that are rendered once for each key, in the order of
the source. -/
def Code.onceIds (code : Code) : List Nat :=
  code.filterMap fun piece =>
    match piece with
    | .onceId id => some id
    | _ => none

@[simp] theorem Code.onceIds_append (first second : Code) :
    Code.onceIds (first ++ second) = first.onceIds ++ second.onceIds := List.filterMap_append

@[simp] theorem Code.onceIds_source (text : String) (rest : Code) :
    Code.onceIds (.source text :: rest) = rest.onceIds := rfl

@[simp] theorem Code.onceIds_nil : Code.onceIds [] = [] := rfl

theorem Code.marks_calls (code : Code) : Code.calls code.marks = code.calls := by
  induction code with
  | nil => rfl
  | cons piece rest ih =>
    cases piece with
    | source text => exact ih
    | fragment index inLoop => exact congrArg (index :: ·) ih
    | onceId id => exact ih

theorem Code.marks_onceIds (code : Code) : Code.onceIds code.marks = code.onceIds := by
  induction code with
  | nil => rfl
  | cons piece rest ih =>
    cases piece with
    | source text => exact ih
    | fragment index inLoop => exact ih
    | onceId id => exact congrArg (id :: ·) ih

theorem wrapped_calls (code : Code) : code.wrapped.calls = code.calls := by simp [Code.wrapped]

theorem wrapped_onceIds (code : Code) : code.wrapped.onceIds = code.onceIds := by
  simp [Code.wrapped]

/-! ## The invariant of a draft -/

/-- The calls and numbers in the fragments kept so far and in the code at hand
are all that have been given out, each once, and fragments call earlier ones. -/
structure Accounted (draft : Draft) (atHand : Code) : Prop where
  calls : (atHand.calls ++ draft.fragments.flatMap Code.calls).Perm
    (List.range draft.fragments.length)
  earlier : ∀ (index : Nat) (fragment : Code), draft.fragments[index]? = some fragment →
    ∀ called ∈ fragment.calls, called < index
  onceIds : (atHand.onceIds ++ draft.fragments.flatMap Code.onceIds).Perm
    (List.range draft.onceCount)

theorem Accounted.empty : Accounted .empty [] where
  calls := .nil
  earlier := fun _ _ found => by cases found
  onceIds := .nil

theorem Accounted.keepFragment {draft : Draft} {around code : Code}
    (accounted : Accounted draft (around ++ code.marks)) (inLoop : Bool) :
    Accounted { draft with fragments := draft.fragments ++ [code.wrapped] }
      (around ++ [.fragment draft.fragments.length inLoop]) where
  calls := by
    have one : Code.calls [.fragment draft.fragments.length inLoop] =
        [draft.fragments.length] := rfl
    have before := accounted.calls
    simp only [Code.calls_append, Code.marks_calls, List.flatMap_append, List.flatMap_singleton,
      wrapped_calls, one, List.length_append, List.length_singleton, List.range_succ] at before ⊢
    refine List.Perm.trans ?_ (before.append_right [draft.fragments.length])
    grind
  earlier := by
    intro index held found called inside
    rcases Nat.lt_trichotomy index draft.fragments.length with inner | here | beyond
    · rw [List.getElem?_append_left inner] at found
      exact accounted.earlier index held found called inside
    · rw [here, List.getElem?_concat_length, Option.some.injEq] at found
      rw [← found, wrapped_calls, ← Code.marks_calls] at inside
      have counted := accounted.calls.subset (List.mem_append_left _
        (Code.calls_append around code.marks ▸ List.mem_append_right _ inside))
      rw [here]
      exact List.mem_range.mp counted
    · rw [List.getElem?_eq_none (by simp; omega)] at found
      cases found
  onceIds := by
    have none : Code.onceIds [.fragment draft.fragments.length inLoop] = [] := rfl
    have before := accounted.onceIds
    simp only [Code.onceIds_append, Code.marks_onceIds, List.flatMap_append,
      List.flatMap_singleton, wrapped_onceIds, none] at before ⊢
    refine List.Perm.trans ?_ before
    grind

theorem Accounted.nextOnce {draft : Draft} {code : Code} (accounted : Accounted draft code) :
    Accounted { draft with onceCount := draft.onceCount + 1 }
      (code ++ [.onceId draft.onceCount]) where
  calls := by
    have none : Code.calls [.onceId draft.onceCount] = [] := rfl
    rw [Code.calls_append, none, List.append_nil]
    exact accounted.calls
  earlier := accounted.earlier
  onceIds := by
    have one : Code.onceIds [.onceId draft.onceCount] = [draft.onceCount] := rfl
    rw [Code.onceIds_append, one, List.range_succ]
    refine List.Perm.trans ?_ (accounted.onceIds.append_right [draft.onceCount])
    grind

/-- A transition accounts for all that it writes. -/
theorem Transition.accounted {context : Context} {among : Element → Prop} {elements : List Element}
    {before after : Draft} {gained : Code}
    (transition : Transition context among elements before gained after) {around : Code}
    (accounted : Accounted before around) : Accounted after (around ++ gained) := by
  induction transition generalizing around with
  | nothing draft => rwa [List.append_nil]
  | append one two first second =>
    rw [← List.append_assoc]
    exact second (first accounted)
  | report held own draft =>
    rw [List.append_nil]
    exact { accounted with }
  | fragment held own inner inLoop ih => exact (ih accounted).keepFragment inLoop
  | number draft => exact accounted.nextOnce

/-! ## Programs -/

/-- Every fragment is called once in the whole program, from the render function
or from a later fragment, and no other index is called; the numbers of subtrees
rendered once are those below some count, each once. -/
structure Program.IsNumbered (program : Program) : Prop where
  calls : (program.render.calls ++ program.fragments.flatMap Code.calls).Perm
    (List.range program.fragments.length)
  earlier : ∀ (index : Nat) (fragment : Code), program.fragments[index]? = some fragment →
    ∀ called ∈ fragment.calls, called < index
  onceIds : ∃ count, (program.render.onceIds ++ program.fragments.flatMap Code.onceIds).Perm
    (List.range count)

/-- Numbering needs nothing of a document and of its annotations. -/
theorem generate_numbered (settings : Settings) (annotations : Annotations) (document : Document) :
    (generate settings annotations document).1.IsNumbered := by
  obtain ⟨after, transition, same, -⟩ := @generate_transition (fun _ => True) settings annotations
    document fun _ _ _ _ _ => trivial
  have accounted := transition.accounted Accounted.empty
  have calls := accounted.calls
  have onceIds := accounted.onceIds
  rw [List.nil_append, Code.marks_calls] at calls
  rw [List.nil_append, Code.marks_onceIds] at onceIds
  rw [← same] at calls onceIds
  exact ⟨calls, same ▸ accounted.earlier, _, onceIds⟩

/-- The numbers in the program of a template are sound, also where elements are
rendered once. -/
theorem compile_numbered (settings : Settings) (template : String) :
    (compile settings template).program.IsNumbered := by
  obtain ⟨-, -, written, -⟩ := compile_parts settings template
  rw [written]
  exact generate_numbered settings _ _

/-- A fragment in a fragment, one in a loop that is not kept, and a subtree that
is rendered once for each key. -/
example :
    let program := (compile Web.settings
      "<ul><li v-once><b><i>a</i></b></li><li v-for=\"x in xs\" :key=\"x\"><i v-once>b</i></li></ul>").program
    program.render.calls = [1] ∧ program.fragments.map Code.calls = [[], [0]] ∧
      program.render.onceIds = [0] := by decide +kernel

end Templating.Rendering
