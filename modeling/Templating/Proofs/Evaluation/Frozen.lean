import Templating.Proofs.Evaluation.Cache
import Templating.Proofs.Evaluation.Reentry
/-!
# Fragments stay frozen

The calls for fragments to be kept are listed in the order in which they end,
those inside a fragment before the call that it is built for.  Once such a call
has given a fragment, every later one for the same index gives it again, through
all renders of an instance and whatever its data.
-/
set_option autoImplicit false

namespace Templating.Evaluation

open Templating.Data Templating.Expression

/-! ## Calls -/

/-- A call for a fragment to be kept, and how it ended. -/
structure FragmentCall where
  index : Nat
  result : Except Halt Fragment

/-- Where the earlier call has given a fragment, the later one for the same index
gives it too. -/
def FragmentCall.Repeats (earlier later : FragmentCall) : Prop :=
  ∀ fragment, earlier.result = .ok fragment → later.index = earlier.index →
    later.result = .ok fragment

/-- The calls of a script that runs from `cache`; `inside` gives those that are
made while a fragment is built. -/
def Script.calls {α : Type} (build : Nat → Eval Fragment)
    (inside : Nat → FragmentCache → List FragmentCall) :
    Script α → FragmentCache → List FragmentCall
  | .done _, _ => []
  | .call index isKept next, cache =>
    let nested := if isKept && (cache.lookup index).isSome then [] else inside index cache
    let (result, after) := answer build index isKept cache
    let own := if isKept then [⟨index, result⟩] else []
    match result with
    | .ok fragment => nested ++ own ++ (next fragment).calls build inside after
    | .error _ => nested ++ own

/-- The calls that are made while a fragment is built on a level. -/
def callsInside (scripts : Nat → Script Fragment) (built : Nat → Nat → Eval Fragment) :
    Nat → Nat → FragmentCache → List FragmentCall
  | 0, _, _ => []
  | level + 1, index, cache =>
    (scripts index).calls (built level) (callsInside scripts built level) cache

/-- The calls lead from what is kept before to what is kept after, which is never
replaced and is what they give. -/
structure Steady (before : FragmentCache) (calls : List FragmentCall) (after : FragmentCache) :
    Prop where
  kept : ∀ index fragment, before.lookup index = some fragment → after.lookup index = some fragment
  served : ∀ call ∈ calls, ∀ fragment, before.lookup call.index = some fragment →
    call.result = .ok fragment
  held : ∀ call ∈ calls, ∀ fragment, call.result = .ok fragment →
    after.lookup call.index = some fragment
  repeats : calls.Pairwise FragmentCall.Repeats

namespace Steady

theorem refl (cache : FragmentCache) : Steady cache [] cache where
  kept _ _ found := found
  served _ held := by cases held
  held _ held := by cases held
  repeats := .nil

theorem trans {before middle after : FragmentCache} {calls others : List FragmentCall}
    (first : Steady before calls middle) (second : Steady middle others after) :
    Steady before (calls ++ others) after := by
  refine ⟨fun index fragment found => second.kept _ _ (first.kept _ _ found), ?_, ?_, ?_⟩
  · intro call held fragment found
    rcases List.mem_append.mp held with inside | inside
    · exact first.served call inside fragment found
    · exact second.served call inside fragment (first.kept _ _ found)
  · intro call held fragment given
    rcases List.mem_append.mp held with inside | inside
    · exact second.kept _ _ (first.held call inside fragment given)
    · exact second.held call inside fragment given
  · refine List.pairwise_append.mpr ⟨first.repeats, second.repeats, ?_⟩
    intro earlier held later inside fragment given same
    exact second.served later inside fragment (same ▸ first.held earlier held fragment given)

theorem found {index : Nat} {fragment : Fragment} {cache : FragmentCache}
    (kept : cache.lookup index = some fragment) : Steady cache [⟨index, .ok fragment⟩] cache where
  kept _ _ found := found
  served call held other found := by
    rw [List.mem_singleton.mp held] at found ⊢
    rw [kept] at found
    rw [Option.some.inj found]
  held call held other given := by
    rw [List.mem_singleton.mp held] at given ⊢
    rw [kept, Except.ok.inj given]
  repeats := List.pairwise_singleton _ _

theorem added {index : Nat} (fragment : Fragment) {cache : FragmentCache}
    (missing : index ∉ keptIndices cache) :
    Steady cache [⟨index, .ok fragment⟩] ((index, fragment) :: cache) where
  kept other kept found := by
    have differs : other ≠ index := by
      rintro rfl
      rw [lookup_none_iff.mpr missing] at found
      cases found
    rw [List.lookup_cons, beq_eq_false_iff_ne.mpr differs]
    exact found
  served call held other found := by
    rw [List.mem_singleton.mp held, lookup_none_iff.mpr missing] at found
    cases found
  held call held other given := by
    rw [List.mem_singleton.mp held] at given ⊢
    rw [List.lookup_cons_self, Except.ok.inj given]
  repeats := List.pairwise_singleton _ _

theorem failed {index : Nat} (halt : Halt) {cache : FragmentCache}
    (missing : index ∉ keptIndices cache) : Steady cache [⟨index, .error halt⟩] cache where
  kept _ _ found := found
  served call held other found := by
    rw [List.mem_singleton.mp held, lookup_none_iff.mpr missing] at found
    cases found
  held call held other given := by
    rw [List.mem_singleton.mp held] at given
    cases given
  repeats := List.pairwise_singleton _ _

end Steady

section Calls

variable {α : Type} {build : Nat → Eval Fragment}
  {inside : Nat → FragmentCache → List FragmentCall} (fresh : BuildsFresh build)
  (keeps : ∀ index, KeepsDistinct (build index))
  (steady : ∀ index cache, IsDistinct cache →
    Steady cache (inside index cache) (build index cache).2)

include fresh keeps steady

omit keeps in
theorem answer_steady (index : Nat) (isKept : Bool) {cache : FragmentCache}
    (distinct : IsDistinct cache) :
    Steady cache
      ((if isKept && (cache.lookup index).isSome then [] else inside index cache) ++
        (if isKept then [⟨index, (answer build index isKept cache).1⟩] else []))
      (answer build index isKept cache).2 := by
  have within := steady index cache distinct
  have absent (missing : cache.lookup index = none) :=
    fresh index cache distinct (lookup_none_iff.mp missing)
  cases ended : answer build index isKept cache with
  | mk result after =>
    cases answered_iff.mp ended with
    | found kept => simpa [kept] using Steady.found kept
    | added missing builds =>
      have added := absent missing
      rw [builds] at within added
      simpa [missing] using within.trans (.added _ added)
    | failed missing builds =>
      have failed := absent missing
      rw [builds] at within failed
      simpa [missing] using within.trans (.failed _ failed)
    | anew builds =>
      rw [builds] at within
      simpa using within

theorem calls_steady (source : Script α) {cache : FragmentCache} (distinct : IsDistinct cache) :
    Steady cache (source.calls build inside cache) (source.run build cache).2 := by
  induction source generalizing cache with
  | done result =>
    rw [Script.run_done, Script.calls]
    exact .refl cache
  | call index isKept next ih =>
    have first := answer_steady fresh steady index isKept distinct
    have distinctAfter := answer_keepsDistinct fresh keeps index isKept cache distinct
    rw [Script.calls]
    cases ended : answer build index isKept cache with
    | mk result after =>
      rw [ended] at first distinctAfter
      cases result with
      | error halt =>
        rw [Script.run_call_error build ended]
        exact first
      | ok fragment =>
        rw [Script.run_call_ok build ended]
        exact first.trans (ih fragment distinctAfter)

end Calls

theorem callsInside_steady {scripts : Nat → Script Fragment} {built : Nat → Nat → Eval Fragment}
    (levels : Levels scripts built) (level index : Nat) {cache : FragmentCache}
    (distinct : IsDistinct cache) :
    Steady cache (callsInside scripts built level index cache) (built level index cache).2 := by
  induction level generalizing index cache with
  | zero =>
    obtain ⟨halt, ends⟩ := levels.lowest index cache
    rw [ends]
    exact .refl cache
  | succ level ih =>
    have settled := built_settled levels level
    rw [levels.above]
    exact calls_steady settled.fresh settled.distinct (fun index cache => ih index)
      (scripts index) distinct

/-! ## Renders -/

section Renders

variable (environment : Environment) (depth : Nat)

def fragmentEntrance : Nat → Entrance
  | 0 => ⟨fun _ _ => throw .tooDeep, fun _ => throw .tooDeep⟩
  | level + 1 => ⟨fun _ _ => throw .tooDeep, evaluateFragments environment depth level⟩

def builtOn (level index : Nat) : Eval Fragment :=
  buildFragment environment (fragmentEntrance environment depth level) index

def fragmentScript (index : Nat) : Script Fragment :=
  match environment.fragments[index]? with
  | none => .fail (.fragmentNotFound index)
  | some source => do .ofExcept (Fragment.ofDatum index (← scriptCalls environment depth [] source))

def renderScript (program : Expr) : Script Tree.Node := do
  .ofExcept (renderedNode (← scriptCalls environment depth [] program))

theorem run_scriptFragments (level : Nat) (source : Expr) :
    (scriptCalls environment depth [] source).run (builtOn environment depth level) =
      evaluateFragments environment depth level source := by
  cases level with
  | zero => exact run_scriptCalls environment _ depth _ [] source
  | succ level => exact run_scriptCalls environment _ depth _ [] source

theorem builtOn_levels :
    Levels (fragmentScript environment depth) (builtOn environment depth) where
  lowest index cache := by
    unfold builtOn buildFragment
    cases environment.fragments[index]? with
    | none => exact ⟨_, rfl⟩
    | some source => exact ⟨_, rfl⟩
  above level index := by
    rw [builtOn, buildFragment, fragmentScript]
    cases environment.fragments[index]? with
    | none => rfl
    | some source =>
      simp only [Script.run_andThen, Script.run_ofExcept]
      rw [run_scriptFragments]
      rfl

theorem index_lt_of_builtOn {level index : Nat} {cache after : FragmentCache} {fragment : Fragment}
    (builds : builtOn environment depth level index cache = (.ok fragment, after)) :
    index < environment.fragments.length := by
  by_contra beyond
  rw [builtOn, buildFragment, List.getElem?_eq_none (Nat.le_of_not_lt beyond)] at builds
  cases builds

theorem run_renderScript (program : Expr) :
    (renderScript environment depth program).run
        (builtOn environment depth environment.fragments.length) =
      renderWithin environment depth program := by
  unfold renderScript renderWithin
  simp only [Script.run_andThen, Script.run_ofExcept]
  rw [run_scriptFragments]

/-- The calls for fragments to be kept in a render. -/
def renderCalls (program : Expr) (cache : FragmentCache) : List FragmentCall :=
  (renderScript environment depth program).calls
    (builtOn environment depth environment.fragments.length)
    (callsInside (fragmentScript environment depth) (builtOn environment depth)
      environment.fragments.length) cache

theorem renderWithin_steady (program : Expr) {cache : FragmentCache}
    (distinct : IsDistinct cache) :
    Steady cache (renderCalls environment depth program cache)
        (renderWithin environment depth program cache).2 ∧
      IsDistinct (renderWithin environment depth program cache).2 := by
  have levels := builtOn_levels environment depth
  have settled := built_settled levels environment.fragments.length
  rw [← run_renderScript]
  refine ⟨?_, run_keepsDistinct settled.fresh settled.distinct _ cache distinct⟩
  exact calls_steady settled.fresh settled.distinct
    (fun index _ => callsInside_steady levels environment.fragments.length index) _ distinct

theorem renderWithin_indices (program : Expr) {cache : FragmentCache} {index : Nat}
    (held : index ∈ keptIndices (renderWithin environment depth program cache).2) :
    index ∈ keptIndices cache ∨ index < environment.fragments.length := by
  have levels := builtOn_levels environment depth
  have appends := built_appends levels environment.fragments.length
  rw [← run_renderScript] at held
  by_cases before : index ∈ keptIndices cache
  · exact .inl before
  · obtain ⟨fragment, earlier, behind, kept⟩ :=
      exists_entry (run_appends appends _ cache) before held
    obtain ⟨start, here | ⟨called, inside⟩⟩ := run_origin appends _ ⟨behind, kept⟩
    · exact .inr (index_lt_of_builtOn environment depth here)
    · obtain ⟨level, -, start, there⟩ := built_origin levels inside
      exact .inr (index_lt_of_builtOn environment depth there)

end Renders

/-! ## Runs of an instance -/

namespace Instance

def after (target : Instance) : List Use → Instance
  | [] => target
  | .setData data :: rest => (target.setData data).after rest
  | .render :: rest => target.render.2.after rest

def calls (target : Instance) : List Use → List FragmentCall
  | [] => []
  | .setData data :: rest => (target.setData data).calls rest
  | .render :: rest =>
    renderCalls target.environment standardDepth target.functions.render.body target.cache ++
      target.render.2.calls rest

theorem after_append (target : Instance) (uses others : List Use) :
    target.after (uses ++ others) = (target.after uses).after others := by
  induction uses generalizing target with
  | nil => rfl
  | cons use rest ih => cases use <;> exact ih _

theorem calls_steady (target : Instance) (uses : List Use) (distinct : IsDistinct target.cache) :
    Steady target.cache (target.calls uses) (target.after uses).cache ∧
      IsDistinct (target.after uses).cache := by
  induction uses generalizing target with
  | nil => exact ⟨.refl _, distinct⟩
  | cons use rest ih =>
    cases use with
    | setData data => exact ih (target.setData data) distinct
    | render =>
      obtain ⟨steady, distinctAfter⟩ := renderWithin_steady target.environment standardDepth
        target.functions.render.body distinct
      obtain ⟨others, distinctLast⟩ := ih target.render.2 distinctAfter
      exact ⟨steady.trans others, distinctLast⟩

theorem after_indices (target : Instance) (uses : List Use) {index : Nat}
    (held : index ∈ keptIndices (target.after uses).cache) :
    index ∈ keptIndices target.cache ∨ index < target.functions.fragments.length := by
  induction uses generalizing target with
  | nil => exact .inl held
  | cons use rest ih =>
    cases use with
    | setData data => exact ih (target.setData data) held
    | render =>
      rcases ih target.render.2 held with before | below
      · have kept := renderWithin_indices target.environment standardDepth
          target.functions.render.body before
        rwa [environment, List.length_map] at kept
      · exact .inr below

end Instance

/-- What is frozen in a run of an instance: each call for a fragment repeats what
earlier ones gave, uses leave what is kept as it is, also where a render fails,
and only fragments that there are, and that calls gave, are kept. -/
structure KeepsFrozen (target : Instance) (uses : List Use) : Prop where
  repeats : (target.calls uses).Pairwise FragmentCall.Repeats
  unchanged : ∀ earlier later, uses = earlier ++ later → ∀ index fragment,
    (target.after earlier).cache.lookup index = some fragment →
      (target.after uses).cache.lookup index = some fragment
  held : ∀ call ∈ target.calls uses, ∀ fragment, call.result = .ok fragment →
    (target.after uses).cache.lookup call.index = some fragment
  bounded : ∀ entry ∈ (target.after uses).cache, entry.1 < target.functions.fragments.length

/-- Whatever the functions of a new instance are, its fragments stay frozen through
all changes of its data and all renders. -/
theorem fresh_keepsFrozen (functions : Functions) (slots : Dictionary (List Tree.Node))
    (data : Value) (uses : List Use) : KeepsFrozen (Instance.fresh functions slots data) uses := by
  have distinct : IsDistinct (Instance.fresh functions slots data).cache := List.nodup_nil
  obtain ⟨steady, -⟩ := Instance.calls_steady (Instance.fresh functions slots data) uses distinct
  refine ⟨steady.repeats, ?_, steady.held, ?_⟩
  · rintro earlier later rfl index fragment found
    obtain ⟨-, distinctThen⟩ := Instance.calls_steady _ earlier distinct
    rw [Instance.after_append]
    exact (Instance.calls_steady _ later distinctThen).1.kept index fragment found
  · intro entry held
    rcases Instance.after_indices _ uses (List.mem_map_of_mem held) with none | below
    · cases none
    · exact below

end Templating.Evaluation
