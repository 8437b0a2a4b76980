import Mathlib.Data.List.Infix
import Templating.Proofs.Evaluation.Script
/-!
# Fragments that enter themselves

Fragments are built on levels: those on the lowest level fail, and those above
call for fragments of the level below.  A fragment that calls for itself while it
is built meets again all that has been kept, down to the call for itself, and so
on through all levels.  No such call ends with a fragment: while one is built,
none is kept under its index.
-/
set_option autoImplicit false

namespace Templating.Evaluation

/-! ## What is kept -/

def keptIndices (cache : FragmentCache) : List Nat := cache.map Prod.fst

def IsDistinct (cache : FragmentCache) : Prop := (keptIndices cache).Nodup

theorem lookup_none_iff {index : Nat} {cache : FragmentCache} :
    cache.lookup index = none ↔ index ∉ keptIndices cache := by
  rw [List.lookup_eq_none_iff, keptIndices, List.mem_map]
  constructor
  · rintro absent ⟨entry, held, rfl⟩
    exact absurd rfl (bne_iff_ne.mp (absent entry held))
  · exact fun absent entry held => bne_iff_ne.mpr fun same => absent ⟨entry, held, same.symm⟩

theorem keptIndices_of_suffix {earlier later : FragmentCache} (kept : earlier <:+ later)
    {index : Nat} (held : index ∈ keptIndices earlier) : index ∈ keptIndices later :=
  (kept.sublist.map Prod.fst).subset held

theorem IsDistinct.earlier {earlier later : FragmentCache} (distinct : IsDistinct later)
    (kept : earlier <:+ later) : IsDistinct earlier :=
  distinct.sublist (kept.sublist.map Prod.fst)

theorem IsDistinct.cons {index : Nat} {fragment : Fragment} {cache : FragmentCache}
    (distinct : IsDistinct cache) (missing : index ∉ keptIndices cache) :
    IsDistinct ((index, fragment) :: cache) := List.nodup_cons.mpr ⟨missing, distinct⟩

theorem IsDistinct.head {index : Nat} {fragment : Fragment} {cache : FragmentCache}
    (distinct : IsDistinct ((index, fragment) :: cache)) : index ∉ keptIndices cache :=
  (List.nodup_cons.mp distinct).1

theorem lookup_of_suffix {earlier later : FragmentCache} (distinct : IsDistinct later)
    (kept : earlier <:+ later) {index : Nat} {fragment : Fragment}
    (found : earlier.lookup index = some fragment) : later.lookup index = some fragment := by
  obtain ⟨added, rfl⟩ := kept
  induction added with
  | nil => exact found
  | cons entry rest ih =>
    have held : index ∈ keptIndices (rest ++ earlier) := by
      by_contra missing
      have none := lookup_none_iff.mpr fun inside =>
        missing (keptIndices_of_suffix ⟨rest, rfl⟩ inside)
      rw [found] at none
      cases none
    have other : index ≠ entry.1 := by
      rintro rfl
      exact distinct.head held
    have below := ih (distinct.earlier (List.suffix_cons entry _))
    obtain ⟨otherIndex, otherFragment⟩ := entry
    rw [List.cons_append, List.lookup_cons, beq_eq_false_iff_ne.mpr other]
    exact below

theorem lookup_of_entry {index : Nat} {fragment : Fragment} {earlier later : FragmentCache}
    (distinct : IsDistinct later) (kept : (index, fragment) :: earlier <:+ later) :
    later.lookup index = some fragment :=
  lookup_of_suffix distinct kept List.lookup_cons_self

/-- A cache is not behind one of its own entries. -/
theorem not_behind {entry : Nat × Fragment} {earlier later : FragmentCache}
    (kept : entry :: earlier <:+ later) : ¬later <:+ earlier := by
  intro behind
  have shorter := kept.length_le
  have longer := behind.length_le
  rw [List.length_cons] at shorter
  omega

theorem exists_entry {index : Nat} {cache after : FragmentCache} (appended : cache <:+ after)
    (missing : index ∉ keptIndices cache) (held : index ∈ keptIndices after) :
    ∃ fragment earlier, cache <:+ earlier ∧ (index, fragment) :: earlier <:+ after := by
  obtain ⟨added, rfl⟩ := appended
  rw [keptIndices, List.map_append, List.mem_append] at held
  obtain ⟨⟨_, fragment⟩, inside, rfl⟩ := List.mem_map.mp (held.resolve_right missing)
  obtain ⟨front, back, rfl⟩ := List.append_of_mem inside
  exact ⟨fragment, back ++ cache, List.suffix_append back cache, front, by simp⟩

/-! ## Answers -/

/-- How a call for the fragment `index` ends, by what is kept and what is
built. -/
inductive Answered (build : Nat → Eval Fragment) (index : Nat) (cache : FragmentCache) :
    Bool → Except Halt Fragment → FragmentCache → Prop
  | found {fragment : Fragment} (kept : cache.lookup index = some fragment) :
    Answered build index cache true (.ok fragment) cache
  | added {fragment : Fragment} {after : FragmentCache} (missing : cache.lookup index = none)
    (builds : build index cache = (.ok fragment, after)) :
    Answered build index cache true (.ok fragment) ((index, fragment) :: after)
  | failed {halt : Halt} {after : FragmentCache} (missing : cache.lookup index = none)
    (builds : build index cache = (.error halt, after)) :
    Answered build index cache true (.error halt) after
  | anew {result : Except Halt Fragment} {after : FragmentCache}
    (builds : build index cache = (result, after)) : Answered build index cache false result after

theorem keep_run (build : Nat → Eval Fragment) (index : Nat) (cache : FragmentCache) :
    keep build index cache =
      match cache.lookup index with
      | some kept => (.ok kept, cache)
      | none =>
        match build index cache with
        | (.ok fragment, after) => (.ok fragment, (index, fragment) :: after)
        | (.error halt, after) => (.error halt, after) := by
  have got : (get : Eval FragmentCache) cache = (.ok cache, cache) := rfl
  rw [keep, run_bind, got]
  dsimp only
  cases cache.lookup index with
  | some kept => rfl
  | none =>
    simp only [run_bind]
    rcases build index cache with ⟨_ | fragment, after⟩ <;> rfl

theorem answered_iff {build : Nat → Eval Fragment} {index : Nat} {isKept : Bool}
    {cache after : FragmentCache} {result : Except Halt Fragment} :
    answer build index isKept cache = (result, after) ↔
      Answered build index cache isKept result after := by
  constructor
  · intro ends
    unfold answer at ends
    cases isKept with
    | false => exact .anew ends
    | true =>
      rw [if_pos rfl, keep_run] at ends
      cases kept : cache.lookup index with
      | some fragment =>
        rw [kept] at ends
        cases ends
        exact .found kept
      | none =>
        rw [kept] at ends
        cases builds : build index cache with
        | mk built inner =>
          rw [builds] at ends
          cases built with
          | ok fragment =>
            cases ends
            exact .added kept builds
          | error halt =>
            cases ends
            exact .failed kept builds
  · intro ends
    unfold answer
    cases ends with
    | found kept => rw [if_pos rfl, keep_run, kept]
    | added missing builds | failed missing builds => rw [if_pos rfl, keep_run, missing, builds]
    | anew builds => exact builds

section Relations

variable {α : Type} {build other : Nat → Eval Fragment}

/-! ## What is kept stays -/

/-- What relates the caches around each answer relates those around a run. -/
theorem run_relates (relates : FragmentCache → FragmentCache → Prop)
    (refl : ∀ cache, relates cache cache)
    (trans : ∀ {before middle after}, relates before middle → relates middle after →
      relates before after)
    (answers : ∀ index isKept cache, relates cache (answer build index isKept cache).2)
    (source : Script α) (cache : FragmentCache) : relates cache (source.run build cache).2 := by
  induction source generalizing cache with
  | done result =>
    rw [Script.run_done]
    exact refl cache
  | call index isKept next ih =>
    have first := answers index isKept cache
    cases ended : answer build index isKept cache with
    | mk result after =>
      rw [ended] at first
      cases result with
      | error halt => rwa [Script.run_call_error build ended]
      | ok fragment =>
        rw [Script.run_call_ok build ended]
        exact trans first (ih fragment after)

/-- The step keeps what is kept, behind what it keeps itself. -/
def Appends (step : Eval α) : Prop := ∀ cache, cache <:+ (step cache).2

theorem answer_appends (appends : ∀ index, Appends (build index)) (index : Nat) (isKept : Bool) :
    Appends (answer build index isKept) := by
  intro cache
  have builds := appends index cache
  cases ended : answer build index isKept cache with
  | mk result after =>
    cases answered_iff.mp ended with
    | found => exact List.suffix_refl cache
    | added _ ends =>
      rw [ends] at builds
      exact builds.trans (List.suffix_cons _ _)
    | failed _ ends | anew ends =>
      rw [ends] at builds
      exact builds

theorem run_appends (appends : ∀ index, Appends (build index)) (source : Script α) :
    Appends (source.run build) :=
  run_relates (· <:+ ·) List.suffix_refl List.IsSuffix.trans (answer_appends appends) source

theorem answer_suffix (appends : ∀ index, Appends (build index)) (index : Nat) (isKept : Bool)
    (next : Fragment → Script α) (cache : FragmentCache) :
    (answer build index isKept cache).2 <:+
      ((Script.call index isKept next).run build cache).2 := by
  cases ended : answer build index isKept cache with
  | mk result after =>
    cases result with
    | error halt =>
      rw [Script.run_call_error build ended]
    | ok fragment =>
      rw [Script.run_call_ok build ended]
      exact run_appends appends (next fragment) after

/-! ## Replays -/

/-- From where all is kept that the step kept, the other step ends with the same
value and keeps nothing more; where it is lower it may fail. -/
def Replays (isLower : Prop) (step other : Eval α) : Prop :=
  ∀ cache value after later, step cache = (.ok value, after) → after <:+ later →
    IsDistinct later →
      other later = (.ok value, later) ∨ isLower ∧ ∃ halt, (other later).1 = .error halt

theorem answer_replays {isLower : Prop}
    (replays : ∀ index, Replays isLower (build index) (other index)) (index : Nat)
    (isKept : Bool) : Replays isLower (answer build index isKept) (answer other index isKept) := by
  intro cache value after later ended kept distinct
  cases answered_iff.mp ended with
  | found held => exact .inl (answered_iff.mpr (.found (lookup_of_suffix distinct kept held)))
  | added => exact .inl (answered_iff.mpr (.found (lookup_of_entry distinct kept)))
  | anew builds =>
    rcases replays index cache value after later builds kept distinct with same | fails
    · exact .inl (answered_iff.mpr (.anew same))
    · exact .inr fails

theorem run_replays {isLower : Prop} (appends : ∀ index, Appends (build index))
    (replays : ∀ index, Replays isLower (build index) (other index)) (source : Script α) :
    Replays isLower (source.run build) (source.run other) := by
  induction source with
  | done result =>
    intro cache value after later ended kept distinct
    rw [Script.run_done] at ended ⊢
    cases ended
    exact .inl rfl
  | call index isKept next ih =>
    intro cache value after later ended kept distinct
    cases first : answer build index isKept cache with
    | mk result middle =>
      cases result with
      | error halt =>
        rw [Script.run_call_error build first] at ended
        cases ended
      | ok fragment =>
        rw [Script.run_call_ok build first] at ended
        have behind : middle <:+ after := by
          have appended := run_appends appends (next fragment) middle
          rwa [ended] at appended
        rcases answer_replays replays index isKept cache fragment middle later first
          (behind.trans kept) distinct with same | ⟨lower, halt, fails⟩
        · rw [Script.run_call_ok other same]
          exact ih fragment middle value after later ended kept distinct
        · rw [Script.run_call_error other (Prod.ext fails rfl)]
          exact .inr ⟨lower, halt, rfl⟩

/-! ## Calls that are met again -/

/-- While it runs from `cache`, the step keeps the fragment in front of what is
kept in `earlier`. -/
structure Adds (step : Eval α) (cache : FragmentCache) (index : Nat) (fragment : Fragment)
    (earlier : FragmentCache) : Prop where
  behind : cache <:+ earlier
  kept : (index, fragment) :: earlier <:+ (step cache).2

/-- Whatever the step keeps, the other step keeps as well when it runs from right
before then and ends with a value. -/
def Readds (step other : Eval α) : Prop :=
  ∀ cache index fragment earlier value later, IsDistinct (step cache).2 →
    Adds step cache index fragment earlier → other earlier = (.ok value, later) →
      index ∈ keptIndices later

def BuildsFresh (build : Nat → Eval Fragment) : Prop :=
  ∀ index cache, IsDistinct cache → index ∉ keptIndices cache →
    index ∉ keptIndices (build index cache).2

theorem Adds.ofCall {next : Fragment → Script α} {cache earlier : FragmentCache}
    {called index : Nat} {isKept : Bool} {fragment : Fragment}
    (adds : Adds ((Script.call called isKept next).run build) cache index fragment earlier)
    (appends : ∀ index, Appends (build index)) :
    Adds (answer build called isKept) cache index fragment earlier ∨
      ∃ answered middle, answer build called isKept cache = (.ok answered, middle) ∧
        Adds ((next answered).run build) middle index fragment earlier := by
  obtain ⟨behind, kept⟩ := adds
  cases first : answer build called isKept cache with
  | mk result middle =>
    cases result with
    | error halt =>
      rw [Script.run_call_error build first] at kept
      exact .inl ⟨behind, by rwa [first]⟩
    | ok answered =>
      rw [Script.run_call_ok build first] at kept
      have appended := run_appends appends (next answered) middle
      rcases List.suffix_or_suffix_of_suffix appended kept with before | inside
      · rcases List.suffix_cons_iff.mp before with same | before
        · exact .inl ⟨behind, by rw [first, same]⟩
        · exact .inr ⟨answered, middle, rfl, before, kept⟩
      · exact .inl ⟨behind, by rwa [first]⟩

theorem answer_readds (appends : ∀ index, Appends (build index)) (fresh : BuildsFresh build)
    (readds : ∀ index, Readds (build index) (other index)) (called : Nat) (isKept : Bool) :
    Readds (answer build called isKept) (answer other called isKept) := by
  intro cache index fragment earlier value later distinct adds ends
  obtain ⟨behind, kept⟩ := adds
  -- Within the building of a fragment, which the other step then builds too.
  have within {inner : FragmentCache} (inside : (build called cache).2 = inner)
      (missing : cache.lookup called = none) (distinctInner : IsDistinct inner)
      (keptInner : (index, fragment) :: earlier <:+ inner)
      (otherEnds : Answered other called earlier true (.ok value) later) :
      index ∈ keptIndices later := by
    subst inside
    have distinctCache := distinctInner.earlier (appends called cache)
    have absent := fresh called cache distinctCache (lookup_none_iff.mp missing)
    have missingEarlier : earlier.lookup called = none :=
      lookup_none_iff.mpr fun held =>
        absent (keptIndices_of_suffix ((List.suffix_cons _ _).trans keptInner) held)
    cases otherEnds with
    | found held =>
      rw [missingEarlier] at held
      cases held
    | added _ builds =>
      exact List.mem_cons_of_mem _
        (readds called cache index fragment earlier value _ distinctInner ⟨behind, keptInner⟩ builds)
  have otherEnds := answered_iff.mp ends
  cases ended : answer build called isKept cache with
  | mk result after =>
    rw [ended] at kept distinct
    cases answered_iff.mp ended with
    | found => exact absurd behind (not_behind kept)
    | added missing builds =>
      rcases List.suffix_cons_iff.mp kept with same | keptInner
      · cases same
        cases otherEnds with
        | found held =>
          by_contra missing
          rw [lookup_none_iff.mpr missing] at held
          cases held
        | added => exact List.mem_cons_self
      · exact within (by rw [builds]) missing (distinct.earlier (List.suffix_cons _ _)) keptInner
          otherEnds
    | failed missing builds => exact within (by rw [builds]) missing distinct kept otherEnds
    | anew builds =>
      cases otherEnds with
      | anew otherBuilds =>
        refine readds called cache index fragment earlier value later ?_ ⟨behind, ?_⟩ otherBuilds
        · rwa [builds]
        · rwa [builds]

theorem run_readds {isLower : Prop} (appends : ∀ index, Appends (build index))
    (otherAppends : ∀ index, Appends (other index)) (fresh : BuildsFresh build)
    (replays : ∀ index, Replays isLower (build index) (other index))
    (readds : ∀ index, Readds (build index) (other index)) (source : Script α) :
    Readds (source.run build) (source.run other) := by
  induction source with
  | done result =>
    rintro cache index fragment earlier value later distinct ⟨behind, kept⟩ ends
    rw [Script.run_done] at kept
    exact absurd behind (not_behind kept)
  | call called isKept next ih =>
    intro cache index fragment earlier value later distinct adds ends
    cases otherFirst : answer other called isKept earlier with
    | mk otherResult otherMiddle =>
      cases otherResult with
      | error halt =>
        rw [Script.run_call_error other otherFirst] at ends
        cases ends
      | ok otherFragment =>
        rw [Script.run_call_ok other otherFirst] at ends
        rcases adds.ofCall appends with early | ⟨answered, middle, first, late⟩
        · have further : otherMiddle <:+ later := by
            have appended := run_appends otherAppends (next otherFragment) otherMiddle
            rwa [ends] at appended
          have distinctFirst := distinct.earlier (answer_suffix appends called isKept next cache)
          exact keptIndices_of_suffix further (answer_readds appends fresh readds called isKept
            cache index fragment earlier otherFragment otherMiddle distinctFirst early otherFirst)
        · have distinctEarlier :=
            distinct.earlier ((List.suffix_cons (index, fragment) earlier).trans adds.kept)
          rw [Script.run_call_ok build first] at distinct
          rcases answer_replays replays called isKept cache answered middle earlier first
            late.behind distinctEarlier with same | ⟨-, halt, fails⟩
          · rw [otherFirst] at same
            cases same
            exact ih otherFragment middle index fragment earlier value later distinct late ends
          · rw [otherFirst] at fails
            cases fails

/-! ## Where entries come from -/

theorem answer_origin {called index : Nat} {isKept : Bool} {cache earlier : FragmentCache}
    {fragment : Fragment} (adds : Adds (answer build called isKept) cache index fragment earlier) :
    build index cache = (.ok fragment, earlier) ∨
      Adds (build called) cache index fragment earlier := by
  obtain ⟨behind, kept⟩ := adds
  cases ended : answer build called isKept cache with
  | mk result after =>
    rw [ended] at kept
    cases answered_iff.mp ended with
    | found => exact absurd behind (not_behind kept)
    | added missing builds =>
      rcases List.suffix_cons_iff.mp kept with same | inner
      · cases same
        exact .inl builds
      · exact .inr ⟨behind, by rwa [builds]⟩
    | failed missing builds | anew builds => exact .inr ⟨behind, by rwa [builds]⟩

theorem run_origin (appends : ∀ index, Appends (build index)) (source : Script α)
    {cache earlier : FragmentCache} {index : Nat} {fragment : Fragment}
    (adds : Adds (source.run build) cache index fragment earlier) :
    ∃ before, build index before = (.ok fragment, earlier) ∨
      ∃ called, Adds (build called) before index fragment earlier := by
  induction source generalizing cache with
  | done result =>
    have kept := adds.kept
    rw [Script.run_done] at kept
    exact absurd adds.behind (not_behind kept)
  | call called isKept next ih =>
    rcases adds.ofCall appends with early | ⟨answered, middle, -, late⟩
    · rcases answer_origin early with built | inside
      · exact ⟨cache, .inl built⟩
      · exact ⟨cache, .inr ⟨called, inside⟩⟩
    · exact ih answered late

/-! ## What is kept stays distinct -/

def KeepsDistinct (step : Eval α) : Prop := ∀ cache, IsDistinct cache → IsDistinct (step cache).2

theorem answer_keepsDistinct (fresh : BuildsFresh build)
    (keeps : ∀ index, KeepsDistinct (build index)) (index : Nat) (isKept : Bool) :
    KeepsDistinct (answer build index isKept) := by
  intro cache distinct
  have inside := keeps index cache distinct
  cases ended : answer build index isKept cache with
  | mk result after =>
    cases answered_iff.mp ended with
    | found => exact distinct
    | added missing builds =>
      have absent := fresh index cache distinct (lookup_none_iff.mp missing)
      rw [builds] at inside absent
      exact inside.cons absent
    | failed missing builds | anew builds => rwa [builds] at inside

theorem run_keepsDistinct (fresh : BuildsFresh build)
    (keeps : ∀ index, KeepsDistinct (build index)) (source : Script α) :
    KeepsDistinct (source.run build) :=
  run_relates (fun before after => IsDistinct before → IsDistinct after) (fun _ distinct => distinct)
    (fun first second distinct => second (first distinct)) (answer_keepsDistinct fresh keeps) source

end Relations

/-! ## Levels -/

/-- Fragments are built from their scripts on each level with those of the level
below, and on the lowest level not at all. -/
structure Levels (scripts : Nat → Script Fragment) (built : Nat → Nat → Eval Fragment) : Prop where
  lowest : ∀ index cache, ∃ halt, built 0 index cache = (.error halt, cache)
  above : ∀ level index, built (level + 1) index = (scripts index).run (built level)

section Levels

variable {scripts : Nat → Script Fragment} {built : Nat → Nat → Eval Fragment}
  (levels : Levels scripts built)

include levels

theorem built_appends (level index : Nat) : Appends (built level index) := by
  induction level generalizing index with
  | zero =>
    intro cache
    obtain ⟨halt, ends⟩ := levels.lowest index cache
    rw [ends]
  | succ level ih =>
    rw [levels.above]
    exact run_appends ih (scripts index)

theorem built_replays {level lower : Nat} (below : lower ≤ level) (index : Nat) :
    Replays (lower < level) (built level index) (built lower index) := by
  induction level generalizing lower index with
  | zero =>
    intro cache value after later ended
    obtain ⟨halt, ends⟩ := levels.lowest index cache
    rw [ends] at ended
    cases ended
  | succ level ih =>
    cases lower with
    | zero =>
      intro cache value after later _ _ _
      obtain ⟨halt, ends⟩ := levels.lowest index later
      exact .inr ⟨Nat.succ_pos level, halt, by rw [ends]⟩
    | succ lower =>
      rw [levels.above, levels.above, Nat.succ_lt_succ_iff]
      exact run_replays (built_appends levels level) (ih (Nat.le_of_succ_le_succ below))
        (scripts index)

/-- What is kept while a fragment is built was built on a lower level. -/
theorem built_origin {level called index : Nat} {cache earlier : FragmentCache}
    {fragment : Fragment} (adds : Adds (built level called) cache index fragment earlier) :
    ∃ lower < level, ∃ before, built lower index before = (.ok fragment, earlier) := by
  induction level generalizing called cache with
  | zero =>
    obtain ⟨behind, kept⟩ := adds
    obtain ⟨halt, ends⟩ := levels.lowest called cache
    rw [ends] at kept
    exact absurd behind (not_behind kept)
  | succ level ih =>
    rw [levels.above] at adds
    obtain ⟨before, here | ⟨inner, inside⟩⟩ :=
      run_origin (built_appends levels level) (scripts called) adds
    · exact ⟨level, Nat.lt_succ_self level, before, here⟩
    · obtain ⟨lower, below, before, there⟩ := ih inside
      exact ⟨lower, Nat.lt_succ_of_lt below, before, there⟩

/-- What holds of a level: nothing is kept under the index of what is built, what
is kept stays distinct, and lower levels meet again what is kept. -/
structure Settled (built : Nat → Nat → Eval Fragment) (level : Nat) : Prop where
  fresh : BuildsFresh (built level)
  distinct : ∀ index, KeepsDistinct (built level index)
  readds : ∀ lower ≤ level, ∀ index, Readds (built level index) (built lower index)

/-- A fragment kept under the index of what is built would have been built on a
lower level.  From right behind that it would be built once more, and meet again
the call for itself, so that it would have been kept before. -/
theorem built_fresh {level : Nat} (distinct : ∀ index, KeepsDistinct (built level index))
    (readds : ∀ lower ≤ level, ∀ index, Readds (built level index) (built lower index)) :
    BuildsFresh (built level) := by
  intro index cache distinctCache missing held
  have distinctAfter := distinct index cache distinctCache
  obtain ⟨fragment, earlier, behind, kept⟩ :=
    exists_entry (built_appends levels level index cache) missing held
  have adds : Adds (built level index) cache index fragment earlier := ⟨behind, kept⟩
  obtain ⟨lower, below, before, ends⟩ := built_origin levels adds
  have distinctEntry := distinctAfter.earlier kept
  have again : built lower index earlier = (.ok fragment, earlier) := by
    rcases built_replays levels (Nat.le_refl lower) index before fragment earlier earlier ends
      (List.suffix_refl earlier) (distinctEntry.earlier (List.suffix_cons _ _)) with same | ⟨less, -⟩
    · exact same
    · exact absurd less (Nat.lt_irrefl lower)
  exact distinctEntry.head (readds lower (Nat.le_of_lt below) index cache index fragment earlier
    fragment earlier distinctAfter adds again)

theorem built_settled (level : Nat) : Settled built level := by
  induction level with
  | zero =>
    have unchanged (index : Nat) (cache : FragmentCache) : (built 0 index cache).2 = cache := by
      obtain ⟨halt, ends⟩ := levels.lowest index cache
      rw [ends]
    refine ⟨fun index cache _ missing => ?_, fun index cache distinct => ?_, ?_⟩
    · rwa [unchanged]
    · rwa [unchanged]
    · rintro lower - index cache other fragment earlier value later - ⟨behind, kept⟩
      rw [unchanged] at kept
      exact absurd behind (not_behind kept)
  | succ level ih =>
    have distinct (index : Nat) : KeepsDistinct (built (level + 1) index) := by
      rw [levels.above]
      exact run_keepsDistinct ih.fresh ih.distinct (scripts index)
    have readds (lower : Nat) (below : lower ≤ level + 1) (index : Nat) :
        Readds (built (level + 1) index) (built lower index) := by
      cases lower with
      | zero =>
        intro cache other fragment earlier value later _ _ ends
        obtain ⟨halt, fails⟩ := levels.lowest index earlier
        rw [fails] at ends
        cases ends
      | succ lower =>
        have under := Nat.le_of_succ_le_succ below
        rw [levels.above, levels.above]
        exact run_readds (built_appends levels level) (built_appends levels lower) ih.fresh
          (built_replays levels under) (ih.readds lower under) (scripts index)
    exact ⟨built_fresh levels distinct readds, distinct, readds⟩

end Levels

end Templating.Evaluation
