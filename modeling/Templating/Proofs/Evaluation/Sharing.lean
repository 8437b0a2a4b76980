import Templating.Evaluation.Compiler
import Templating.Proofs.Translation.Programs
/-!
# Functions that are shared

A compiler that keeps functions answers like one that has kept nothing: every
entry holds what its key decides, and the key decides the settings of every call
without code of its own.  Two such calls get one object exactly when they agree
and nothing was cleared since the first of them.
-/
set_option autoImplicit false

namespace Templating.Evaluation

open Templating.Data Templating.Template Templating.Rendering

structure Request where
  overlay : Overlay
  template : String

namespace Request

def settings (base : Settings) (request : Request) : Settings := base.overlaid request.overlay

/-- The call brings no extensions and no directives. -/
def isPlain (request : Request) : Bool := request.overlay.isPlain

def key (base : Settings) (request : Request) : FunctionKey :=
  .of (request.settings base) request.template

/-- The functions of the call, where nothing is kept. -/
def made (base : Settings) (request : Request) : Except SourceFault Functions :=
  Functions.ofTemplate (request.settings base) request.template

/-- Both calls give the same template and come to the same switches. -/
structure Agrees (base : Settings) (request other : Request) : Prop where
  template : request.template = other.template
  delimiters : (request.settings base).delimiters = (other.settings base).delimiters
  whitespace : (request.settings base).whitespace = (other.settings base).whitespace
  keepsComments : (request.settings base).keepsComments = (other.settings base).keepsComments
  optimizes : (request.settings base).optimizes = (other.settings base).optimizes
  reportsSpans : (request.settings base).reportsSpans = (other.settings base).reportsSpans

variable {base : Settings} {request other : Request}

theorem key_eq_iff : request.key base = other.key base ↔ request.Agrees base other := by
  constructor
  · intro same
    simp only [key, FunctionKey.of, FunctionKey.mk.injEq] at same
    obtain ⟨delimiters, whitespace, keepsComments, optimizes, reportsSpans, template⟩ := same
    exact ⟨template, delimiters, whitespace, keepsComments, optimizes, reportsSpans⟩
  · rintro ⟨template, delimiters, whitespace, keepsComments, optimizes, reportsSpans⟩
    simp only [key, FunctionKey.of, template, delimiters, whitespace, keepsComments, optimizes,
      reportsSpans]

/-- The key covers all that an overlay without code can change. -/
theorem settings_eq_of_agrees (plain : request.isPlain = true) (plainOther : other.isPlain = true)
    (agrees : request.Agrees base other) : request.settings base = other.settings base := by
  obtain ⟨extensions, directives⟩ := @overlaid_plain base _ plain
  obtain ⟨extensionsOther, directivesOther⟩ := @overlaid_plain base _ plainOther
  have platform : (request.settings base).platform = (other.settings base).platform := rfl
  have sameExtensions : (request.settings base).extensions = (other.settings base).extensions :=
    extensions.trans extensionsOther.symm
  have sameDirectives : (request.settings base).directives = (other.settings base).directives :=
    directives.trans directivesOther.symm
  obtain ⟨-, delimiters, whitespace, keepsComments, optimizes, reportsSpans⟩ := agrees
  generalize request.settings base = settings at *
  generalize other.settings base = settingsOther at *
  cases settings
  cases settingsOther
  simp_all

theorem made_eq_of_agrees (plain : request.isPlain = true) (plainOther : other.isPlain = true)
    (agrees : request.Agrees base other) : request.made base = other.made base := by
  rw [made, made, settings_eq_of_agrees plain plainOther agrees, agrees.template]

end Request

namespace Compiler

def serve (compiler : Compiler) (request : Request) : Except SourceFault Handle × Compiler :=
  compiler.functions request.overlay request.template

def serveAll (compiler : Compiler) : List Request → Compiler
  | [] => compiler
  | request :: rest => (compiler.serve request).2.serveAll rest

theorem serveAll_append (compiler : Compiler) (first second : List Request) :
    compiler.serveAll (first ++ second) = (compiler.serveAll first).serveAll second := by
  induction first generalizing compiler with
  | nil => rfl
  | cons request rest ih => exact ih (compiler.serve request).2

/-! ## What a call does -/

/-- The four ways in which a call ends. -/
inductive Served (compiler : Compiler) (request : Request) :
    Except SourceFault Handle × Compiler → Prop where
  | shared (handle : Handle) (plain : request.isPlain = true)
      (found : find? (request.key compiler.settings) compiler.kept = some handle) :
      Served compiler request (.ok handle, compiler)
  | failed (fault : SourceFault) (fails : request.made compiler.settings = .error fault)
      (missing : request.isPlain = true →
        find? (request.key compiler.settings) compiler.kept = none) :
      Served compiler request (.error fault, compiler)
  | unkept (functions : Functions) (own : request.isPlain = false)
      (makes : request.made compiler.settings = .ok functions) :
      Served compiler request
        (.ok ⟨compiler.made, functions⟩, { compiler with made := compiler.made + 1 })
  | added (functions : Functions) (plain : request.isPlain = true)
      (missing : find? (request.key compiler.settings) compiler.kept = none)
      (makes : request.made compiler.settings = .ok functions) :
      Served compiler request
        (.ok ⟨compiler.made, functions⟩,
          { compiler with
            kept := keep (request.key compiler.settings) ⟨compiler.made, functions⟩ compiler.kept
            made := compiler.made + 1 })

theorem serve_served (compiler : Compiler) (request : Request) :
    Served compiler request (compiler.serve request) := by
  rw [serve, functions]
  cases plain : request.overlay.isPlain with
  | false =>
    simp only [Bool.false_eq_true, if_false]
    delta make
    cases result : Functions.ofTemplate (compiler.settings.overlaid request.overlay)
        request.template with
    | error fault =>
      exact .failed fault result fun isPlain => absurd (isPlain.symm.trans plain) (by decide)
    | ok functions => exact .unkept functions plain result
  | true =>
    simp only [if_true]
    cases found : find? (.of (compiler.settings.overlaid request.overlay) request.template)
        compiler.kept with
    | some handle => exact .shared handle plain found
    | none =>
      simp only
      delta make
      cases result : Functions.ofTemplate (compiler.settings.overlaid request.overlay)
          request.template with
      | error fault => exact .failed fault result fun _ => found
      | ok functions => exact .added functions plain found result

theorem mem_of_find {key : FunctionKey} {kept : List (FunctionKey × Handle)} {handle : Handle}
    (found : find? key kept = some handle) : (key, handle) ∈ kept := by
  obtain ⟨⟨other, held⟩, hit, rfl⟩ := Option.map_eq_some_iff.mp found
  have same : other = key := by simpa using List.find?_some hit
  rw [← same]
  exact List.mem_of_find?_eq_some hit

theorem find_ne_none_of_mem {key : FunctionKey} {kept : List (FunctionKey × Handle)}
    {handle : Handle} (held : (key, handle) ∈ kept) : find? key kept ≠ none := by
  rw [find?, ne_eq, Option.map_eq_none_iff, List.find?_eq_none]
  intro none
  exact absurd (none _ held) (by simp)

theorem find_eq_of_mem {key : FunctionKey} {kept : List (FunctionKey × Handle)} {handle : Handle}
    (distinct : (kept.map Prod.fst).Nodup) (held : (key, handle) ∈ kept) :
    find? key kept = some handle := by
  cases found : find? key kept with
  | none => exact absurd found (find_ne_none_of_mem held)
  | some other =>
    have same := List.inj_on_of_nodup_map distinct (mem_of_find found) held rfl
    rw [(Prod.mk.inj same).2]

/-! ## The invariant of a compiler -/

/-- Every entry holds the functions that its key decides; keys and handles occur
once, and handles have numbers that have been given out. -/
structure Sound (base : Settings) (compiler : Compiler) : Prop where
  settings : compiler.settings = base
  fresh : ∀ entry ∈ compiler.kept, ∃ request : Request, request.isPlain = true ∧
    request.key base = entry.1 ∧ request.made base = .ok entry.2.functions
  keys : (compiler.kept.map Prod.fst).Nodup
  numbers : (compiler.kept.map fun entry => entry.2.number).Nodup
  below : ∀ entry ∈ compiler.kept, entry.2.number < compiler.made
  bounded : compiler.kept.length ≤ keptLimit

section Sound

variable {base : Settings} {compiler : Compiler}

theorem Sound.new (base : Settings) : Sound base (Compiler.new base) where
  settings := rfl
  fresh := fun _ held => by cases held
  keys := List.nodup_nil
  numbers := List.nodup_nil
  below := fun _ held => by cases held
  bounded := Nat.zero_le _

theorem Sound.added (sound : Sound base compiler) {request : Request} {functions : Functions}
    (plain : request.isPlain = true) (missing : find? (request.key base) compiler.kept = none)
    (makes : request.made base = .ok functions) :
    Sound base
      { compiler with
        kept := keep (request.key base) ⟨compiler.made, functions⟩ compiler.kept
        made := compiler.made + 1 } := by
  have entry : ∃ other : Request, other.isPlain = true ∧ other.key base = request.key base ∧
      other.made base = .ok functions := ⟨request, plain, rfl, makes⟩
  unfold keep
  split
  · exact
      { settings := sound.settings
        fresh := fun other held => by rwa [List.mem_singleton.mp held]
        keys := List.nodup_singleton _
        numbers := List.nodup_singleton _
        below := fun other held => by
          rw [List.mem_singleton.mp held]
          exact Nat.lt_succ_self _
        bounded := Nat.succ_le_of_lt (by decide : 0 < keptLimit) }
  · next room =>
    have newKey : request.key base ∉ compiler.kept.map Prod.fst := by
      intro held
      obtain ⟨⟨key, handle⟩, inside, rfl⟩ := List.mem_map.mp held
      exact find_ne_none_of_mem inside missing
    have newNumber : compiler.made ∉ compiler.kept.map fun entry => entry.2.number := by
      intro held
      obtain ⟨other, inside, same⟩ := List.mem_map.mp held
      have less := sound.below other inside
      omega
    exact
      { settings := sound.settings
        fresh := List.forall_mem_cons.mpr ⟨entry, sound.fresh⟩
        keys := List.nodup_cons.mpr ⟨newKey, sound.keys⟩
        numbers := List.nodup_cons.mpr ⟨newNumber, sound.numbers⟩
        below := List.forall_mem_cons.mpr
          ⟨Nat.lt_succ_self _, fun other held => Nat.lt_succ_of_lt (sound.below other held)⟩
        bounded := by
          simp only [List.length_cons]
          omega }

theorem Sound.serve (sound : Sound base compiler) (request : Request) :
    Sound base (compiler.serve request).2 := by
  have served := serve_served compiler request
  generalize compiler.serve request = result at served
  obtain rfl := sound.settings
  cases served with
  | shared handle plain found => exact sound
  | failed fault fails missing => exact sound
  | unkept functions own makes =>
    exact { sound with below := fun entry held => Nat.lt_succ_of_lt (sound.below entry held) }
  | added functions plain missing makes => exact sound.added plain missing makes

theorem Sound.serveAll (sound : Sound base compiler) (requests : List Request) :
    Sound base (compiler.serveAll requests) := by
  induction requests generalizing compiler with
  | nil => exact sound
  | cons request rest ih => exact ih (sound.serve request)

/-- A compiler answers with the functions of the call, whatever it has kept. -/
theorem Sound.answer (sound : Sound base compiler) (request : Request) :
    (compiler.serve request).1.map Handle.functions = request.made base := by
  have served := serve_served compiler request
  generalize compiler.serve request = result at served
  obtain rfl := sound.settings
  cases served with
  | shared handle plain found =>
    obtain ⟨other, plainOther, same, makes⟩ := sound.fresh _ (mem_of_find found)
    have agrees := Request.key_eq_iff.mp same
    rw [← Request.made_eq_of_agrees plainOther plain agrees, makes]
    rfl
  | failed fault fails missing => exact fails.symm
  | unkept functions own makes => exact makes.symm
  | added functions plain missing makes => exact makes.symm

end Sound

/-! ## Clearing -/

/-- The call drops all that was kept. -/
def Clears (compiler : Compiler) (request : Request) : Prop :=
  compiler.kept ≠ [] ∧ ∀ entry ∈ compiler.kept, entry ∉ (compiler.serve request).2.kept

def ClearsAmong : Compiler → List Request → Prop
  | _, [] => False
  | compiler, request :: rest =>
    compiler.Clears request ∨ (compiler.serve request).2.ClearsAmong rest

theorem clearsAmong_concat (compiler : Compiler) (requests : List Request) (last : Request) :
    compiler.ClearsAmong (requests ++ [last]) ↔
      compiler.ClearsAmong requests ∨ (compiler.serveAll requests).Clears last := by
  induction requests generalizing compiler with
  | nil => simp [ClearsAmong, serveAll]
  | cons request rest ih => simp only [List.cons_append, ClearsAmong, serveAll, ih, or_assoc]

/-- A number that has been given out is that of no handle kept. -/
def IsLost (number : Nat) (compiler : Compiler) : Prop :=
  number < compiler.made ∧ ∀ entry ∈ compiler.kept, entry.2.number ≠ number

section Tracking

variable {base : Settings} {compiler : Compiler}

/-- An entry stays until all are dropped; then its handle is lost. -/
theorem Sound.kept_or_lost (sound : Sound base compiler) {entry : FunctionKey × Handle}
    (held : entry ∈ compiler.kept) (request : Request) :
    ¬ compiler.Clears request ∧ entry ∈ (compiler.serve request).2.kept ∨
      compiler.Clears request ∧ IsLost entry.2.number (compiler.serve request).2 := by
  have stays (inside : entry ∈ (compiler.serve request).2.kept) :
      ¬ compiler.Clears request ∧ entry ∈ (compiler.serve request).2.kept :=
    ⟨fun clears => clears.2 entry held inside, inside⟩
  have less := sound.below entry held
  have served := serve_served compiler request
  cases result : compiler.serve request with
  | mk answer after =>
    rw [result] at served stays
    cases served with
    | shared handle plain found => exact .inl (stays held)
    | failed fault fails missing => exact .inl (stays held)
    | unkept functions own makes => exact .inl (stays held)
    | added functions plain missing makes =>
      by_cases full : keptLimit ≤ compiler.kept.length
      · refine .inr ⟨⟨List.ne_nil_of_mem held, fun other inside kept => ?_⟩,
          Nat.lt_succ_of_lt less, fun other kept => ?_⟩
        · rw [result] at kept
          simp only [keep, full, if_true, List.mem_singleton] at kept
          have before := sound.below other inside
          rw [kept] at before
          exact Nat.lt_irrefl _ before
        · simp only [keep, full, if_true, List.mem_singleton] at kept
          rw [kept]
          exact Nat.ne_of_gt less
      · refine .inl (stays ?_)
        simp only [keep, full, if_false]
        exact List.mem_cons_of_mem _ held

theorem IsLost.serve {number : Nat} (lost : IsLost number compiler) (request : Request) :
    IsLost number (compiler.serve request).2 := by
  obtain ⟨less, absent⟩ := lost
  have served := serve_served compiler request
  generalize compiler.serve request = result at served
  cases served with
  | shared handle plain found => exact ⟨less, absent⟩
  | failed fault fails missing => exact ⟨less, absent⟩
  | unkept functions own makes => exact ⟨Nat.lt_succ_of_lt less, absent⟩
  | added functions plain missing makes =>
    refine ⟨Nat.lt_succ_of_lt less, fun entry held => ?_⟩
    simp only [keep] at held
    split at held
    · rw [List.mem_singleton.mp held]
      exact Nat.ne_of_gt less
    · rcases List.mem_cons.mp held with rfl | inside
      · exact Nat.ne_of_gt less
      · exact absent entry inside

theorem IsLost.serveAll {number : Nat} (lost : IsLost number compiler) (requests : List Request) :
    IsLost number (compiler.serveAll requests) := by
  induction requests generalizing compiler with
  | nil => exact lost
  | cons request rest ih => exact ih (lost.serve request)

theorem Sound.kept_or_lost_among (sound : Sound base compiler) {entry : FunctionKey × Handle}
    (held : entry ∈ compiler.kept) (requests : List Request) :
    ¬ compiler.ClearsAmong requests ∧ entry ∈ (compiler.serveAll requests).kept ∨
      compiler.ClearsAmong requests ∧ IsLost entry.2.number (compiler.serveAll requests) := by
  induction requests generalizing compiler with
  | nil => exact .inl ⟨id, held⟩
  | cons request rest ih =>
    rcases sound.kept_or_lost held request with ⟨stays, inside⟩ | ⟨clears, lost⟩
    · rcases ih (sound.serve request) inside with ⟨none, still⟩ | ⟨later, lost⟩
      · exact .inl ⟨fun among => among.elim stays none, still⟩
      · exact .inr ⟨.inr later, lost⟩
    · exact .inr ⟨.inl clears, lost.serveAll rest⟩

theorem Sound.keeps_answer (sound : Sound base compiler) {request : Request}
    (plain : request.isPlain = true) {handle : Handle}
    (answers : (compiler.serve request).1 = .ok handle) :
    (request.key base, handle) ∈ (compiler.serve request).2.kept := by
  have served := serve_served compiler request
  generalize compiler.serve request = result at served answers
  rw [← sound.settings]
  cases served with
  | shared other _ found =>
    cases answers
    exact mem_of_find found
  | failed fault fails missing => cases answers
  | unkept functions own makes => exact absurd (plain.symm.trans own) (by decide)
  | added functions _ missing makes =>
    cases answers
    simp only [keep]
    split
    · exact List.mem_singleton_self _
    · exact List.mem_cons_self

theorem IsLost.answer {number : Nat} (lost : IsLost number compiler) {request : Request}
    {handle : Handle} (answers : (compiler.serve request).1 = .ok handle) :
    number ≠ handle.number := by
  have served := serve_served compiler request
  generalize compiler.serve request = result at served answers
  cases served with
  | shared other plain found =>
    cases answers
    exact (lost.2 _ (mem_of_find found)).symm
  | failed fault fails missing => cases answers
  | unkept functions own makes =>
    cases answers
    exact Nat.ne_of_lt lost.1
  | added functions plain missing makes =>
    cases answers
    exact Nat.ne_of_lt lost.1

/-- While the handle of a plain call is kept, just the plain calls that agree
with it get that handle, and they clear nothing. -/
theorem Sound.shared_iff (sound : Sound base compiler) {earlier request : Request}
    (plain : request.isPlain = true) {first second : Handle}
    (held : (earlier.key base, first) ∈ compiler.kept)
    (answers : (compiler.serve request).1 = .ok second) :
    first.number = second.number ↔
      earlier.Agrees base request ∧ ¬ compiler.Clears request := by
  have tracked := sound.kept_or_lost held request
  have served := serve_served compiler request
  cases result : compiler.serve request with
  | mk answer after =>
    rw [result] at served answers tracked
    subst answers
    have settings := sound.settings
    rw [← Request.key_eq_iff]
    cases served with
    | shared _ _ found =>
      rw [settings] at found
      have stays : ¬ compiler.Clears request :=
        tracked.elim And.left fun lost => absurd rfl (lost.2.2 _ held)
      refine ⟨fun same => ⟨?_, stays⟩, fun ⟨agrees, _⟩ => ?_⟩
      · exact congrArg Prod.fst
          (List.inj_on_of_nodup_map sound.numbers held (mem_of_find found) same)
      · rw [← agrees, find_eq_of_mem sound.keys held] at found
        exact congrArg Handle.number (Option.some.inj found)
    | unkept functions own makes => exact absurd (plain.symm.trans own) (by decide)
    | added functions _ missing makes =>
      have less : first.number < compiler.made := sound.below _ held
      rw [settings] at missing
      refine ⟨fun same => absurd same (Nat.ne_of_lt less), fun ⟨agrees, _⟩ => ?_⟩
      exact absurd (agrees ▸ missing) (find_ne_none_of_mem held)

end Tracking

end Compiler

/-! ## Calls after any history -/

/-- How a compiler that was made on `base` and has served `history` serves one
more call. -/
structure ServedSoundly (base : Settings) (history : List Request) (request : Request) : Prop where
  /-- The answer is the one that a new compiler gives. -/
  answer :
    (((Compiler.new base).serveAll history).serve request).1.map Handle.functions =
      ((Compiler.new base).serve request).1.map Handle.functions
  /-- No key is kept twice, and there are at most 256. -/
  keys : ((((Compiler.new base).serveAll history).serve request).2.kept.map Prod.fst).Nodup
  bounded : (((Compiler.new base).serveAll history).serve request).2.kept.length ≤ 256
  /-- A call with code of its own neither reads nor changes what is kept. -/
  unread : request.isPlain = false → ∀ kept : List (FunctionKey × Handle),
    (({ (Compiler.new base).serveAll history with kept } : Compiler).serve request).1 =
      (((Compiler.new base).serveAll history).serve request).1
  unchanged : request.isPlain = false →
    (((Compiler.new base).serveAll history).serve request).2.kept =
      ((Compiler.new base).serveAll history).kept
  /-- A call that fails leaves the compiler as it was. -/
  failing : ∀ fault, (((Compiler.new base).serveAll history).serve request).1 = .error fault →
    (((Compiler.new base).serveAll history).serve request).2 = (Compiler.new base).serveAll history
  /-- Two plain calls get the same object just when they agree and nothing was
  cleared after the first of them. -/
  sameObject : ∀ before earlier between, history = before ++ earlier :: between →
    earlier.isPlain = true → request.isPlain = true → ∀ first second : Handle,
      (((Compiler.new base).serveAll before).serve earlier).1 = .ok first →
      (((Compiler.new base).serveAll history).serve request).1 = .ok second →
      (first.number = second.number ↔
        earlier.Agrees base request ∧
          ¬ (((Compiler.new base).serveAll before).serve earlier).2.ClearsAmong
            (between ++ [request]))

theorem Compiler.serve_own {compiler : Compiler} {request : Request}
    (own : request.isPlain = false) (kept : List (FunctionKey × Handle)) :
    (({ compiler with kept } : Compiler).serve request).1 = (compiler.serve request).1 ∧
      (compiler.serve request).2.kept = compiler.kept := by
  have ownOverlay : request.overlay.isPlain = false := own
  simp only [Compiler.serve, Compiler.functions, ownOverlay, Bool.false_eq_true, if_false]
  delta Compiler.make
  cases Functions.ofTemplate (compiler.settings.overlaid request.overlay) request.template with
  | error fault => exact ⟨rfl, rfl⟩
  | ok functions => exact ⟨rfl, rfl⟩

theorem Compiler.serve_failing {compiler : Compiler} {request : Request} {fault : SourceFault}
    (fails : (compiler.serve request).1 = .error fault) :
    (compiler.serve request).2 = compiler := by
  have served := serve_served compiler request
  generalize compiler.serve request = result at served fails
  cases served with
  | shared handle plain found => cases fails
  | failed other _ missing => rfl
  | unkept functions own makes => cases fails
  | added functions plain missing makes => cases fails

/-- The functions that a compiler keeps do not show but in being shared. -/
theorem serve_servedSoundly (base : Settings) (history : List Request) (request : Request) :
    ServedSoundly base history request := by
  have sound := (Compiler.Sound.new base).serveAll history
  refine
    { answer := (sound.answer request).trans ((Compiler.Sound.new base).answer request).symm
      keys := (sound.serve request).keys
      bounded := (sound.serve request).bounded
      unread := fun own kept => (Compiler.serve_own own kept).1
      unchanged := fun own => (Compiler.serve_own own []).2
      failing := fun fault fails => Compiler.serve_failing fails
      sameObject := ?_ }
  intro before earlier between split plainEarlier plain first second answersFirst answersSecond
  have soundBefore := (Compiler.Sound.new base).serveAll before
  have held := soundBefore.keeps_answer plainEarlier answersFirst
  have soundAfter := soundBefore.serve earlier
  have history : (Compiler.new base).serveAll history =
      (((Compiler.new base).serveAll before).serve earlier).2.serveAll between := by
    rw [split, Compiler.serveAll_append]
    rfl
  rw [history] at sound answersSecond
  rw [Compiler.clearsAmong_concat]
  rcases soundAfter.kept_or_lost_among held between with ⟨none, still⟩ | ⟨clears, lost⟩
  · rw [sound.shared_iff plain still answersSecond]
    simp only [none, false_or]
  · exact ⟨fun same => absurd same (lost.answer answersSecond),
      fun ⟨_, keeps⟩ => absurd (.inl clears) keeps⟩

end Templating.Evaluation
