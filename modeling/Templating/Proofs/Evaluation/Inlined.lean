import Templating.Proofs.Evaluation.Cache
import Templating.Proofs.Evaluation.Marks
import Templating.Proofs.Evaluation.Tame
/-!
# Fragments stand for what is inlined

A program with inert fragments is compared with one that has the code of each in
the place of its calls.  Both end alike, but for the marks of what comes from
fragments, unless functions nest too deeply in the code that is inlined.
-/
set_option autoImplicit false

namespace Templating.Evaluation

open Templating.Text Templating.Data Templating.Expression Templating.Rendering

/-! ## Both programs -/

/-- What both programs are bound to, and the fragments of the first. -/
structure World where
  data : Value
  slots : Dictionary (List Tree.Node)
  depth : Nat
  fragments : List Expr
  inert : ∀ source ∈ fragments, IsInert source

namespace World

variable (world : World)

def hoisting : Environment := ⟨world.data, world.fragments, world.slots⟩

def inlining : Environment := ⟨world.data, [], world.slots⟩

def enterFragment : Expr → Eval Datum := enterBelow world.hoisting world.depth world.fragments.length

def hoisted (depth : Nat) (scope : Scope) (source : Expr) : Eval Datum :=
  evaluateCalls world.hoisting world.enterFragment depth scope source

def inlined (depth : Nat) (scope : Scope) (source : Expr) : Eval Datum :=
  evaluateCalls world.inlining (fun _ => throw .tooDeep) depth scope source

def built : Nat → Except Halt Fragment := inertFragment world.fragments world.slots world.depth

theorem builds {enter : Entrance} (enters : enter.fragment = world.enterFragment) (index : Nat) :
    Gives (buildFragment world.hoisting enter index) (world.built index) :=
  enterBelow_builds world.inert world.slots world.depth world.data enters index

end World

/-! ## Steps that follow others -/

/-- Both end with a fault, or with results that are related. -/
inductive Ends {α β : Type} (related : α → β → Prop) : Except Halt α → Except Halt β → Prop where
  | ok {value : α} {other : β} : related value other → Ends related (.ok value) (.ok other)
  | fault (fault : Fault) : Ends related (.error (.fault fault)) (.error (.fault fault))

theorem Ends.of_ok {α β : Type} {related : α → β → Prop} {result : Except Halt α} {given : β}
    (ends : Ends related result (.ok given)) : ∃ value, result = .ok value ∧ related value given := by
  cases ends with
  | ok holds => exact ⟨_, rfl, holds⟩

theorem Ends.mono {α β : Type} {related weaker : α → β → Prop} {result : Except Halt α}
    {final : Except Halt β} (ends : Ends related result final)
    (implied : ∀ value given, related value given → weaker value given) : Ends weaker result final := by
  cases ends with
  | ok holds => exact .ok (implied _ _ holds)
  | fault fault => exact .fault fault

section Steps

variable (world : World) {α β γ δ : Type}

/-- Unless the other step goes too deep, the first one ends alike with all good
caches, and leaves them good. -/
def Follows (related : α → β → Prop) (step : Eval α) (other : Eval β) : Prop :=
  ∃ final, Gives other final ∧ (final = .error .tooDeep ∨ ∀ cache, IsGood world.built cache →
    Ends related (step cache).1 final ∧ IsGood world.built (step cache).2)

variable {world} {related : α → β → Prop} {relatedThen : γ → δ → Prop}

theorem Follows.pure {value : α} {other : β} (given : related value other) :
    Follows world related (Pure.pure value) (Pure.pure other) :=
  ⟨.ok other, fun _ => rfl, .inr fun _ good => ⟨.ok given, good⟩⟩

theorem Follows.fail (fault : Fault) :
    Follows world related (Eval.fail fault) (Eval.fail fault) :=
  ⟨.error (.fault fault), fun _ => rfl, .inr fun _ good => ⟨.fault fault, good⟩⟩

theorem Follows.tooDeep (step : Eval α) :
    Follows world related step (throw .tooDeep) :=
  ⟨.error .tooDeep, fun _ => rfl, .inl rfl⟩

theorem Follows.bind {step : Eval α} {other : Eval β} {next : α → Eval γ} {otherNext : β → Eval δ}
    (first : Follows world related step other)
    (second : ∀ value given, related value given →
      Follows world relatedThen (next value) (otherNext given)) :
    Follows world relatedThen (step >>= next) (other >>= otherNext) := by
  obtain ⟨final, gives, ends⟩ := first
  cases final with
  | error halt =>
    refine ⟨.error halt, fun cache => by rw [run_bind, gives], ends.imp (fun same => ?_) ?_⟩
    · cases same
      rfl
    · intro ends cache good
      obtain ⟨same, still⟩ := ends cache good
      rw [run_bind]
      generalize step cache = run at same still
      obtain ⟨result, after⟩ := run
      cases same
      exact ⟨.fault _, still⟩
  | ok given =>
    rcases ends with deep | ends
    · cases deep
    -- The end of the second step is the same whatever the first one gives.
    obtain ⟨value, -, holds⟩ := (ends [] (.nil _)).1.of_ok
    obtain ⟨last, givesThen, -⟩ := second value given holds
    refine ⟨last, fun cache => by rw [run_bind, gives]; exact givesThen cache, ?_⟩
    by_cases deep : last = .error .tooDeep
    · exact .inl deep
    refine .inr fun cache good => ?_
    obtain ⟨same, still⟩ := ends cache good
    rw [run_bind]
    generalize step cache = run at same still
    obtain ⟨result, after⟩ := run
    cases same with
    | ok holds =>
      obtain ⟨final, gives, endsThen⟩ := second _ given holds
      have equal : final = last := (Prod.ext_iff.mp ((gives []).symm.trans (givesThen []))).1
      rcases endsThen with impossible | endsThen
      · exact absurd (equal ▸ impossible) deep
      · exact equal ▸ endsThen after still

theorem Follows.mono {weaker : α → β → Prop} {step : Eval α} {other : Eval β}
    (follows : Follows world related step other)
    (implied : ∀ value given, related value given → weaker value given) :
    Follows world weaker step other := by
  obtain ⟨final, gives, ends⟩ := follows
  refine ⟨final, gives, ends.imp id fun ends cache good => ?_⟩
  obtain ⟨same, still⟩ := ends cache good
  exact ⟨same.mono implied, still⟩

theorem Refines.follows {holds : α → Prop} {step other : Eval α} (refines : Refines holds step other) :
    Follows world (fun value given => value = given ∧ holds given) step other := by
  obtain ⟨final, gives, same, given⟩ := refines
  by_cases deep : final = .error .tooDeep
  · exact ⟨final, gives, .inl deep⟩
  rcases same with impossible | same
  · exact absurd impossible deep
  refine ⟨final, gives, .inr fun cache good => ?_⟩
  rw [same]
  refine ⟨?_, good⟩
  cases final with
  | ok value => exact .ok ⟨rfl, given value rfl⟩
  | error halt =>
    cases halt with
    | fault fault => exact .fault fault
    | tooDeep => exact absurd rfl deep

end Steps

/-! ## Where code stands -/

inductive Place where
  /-- The same is bound in both programs. -/
  | inside
  /-- What is bound does not matter. -/
  | fixed

/-- What may be bound there in the program with fragments and in the other. -/
def Place.Admits : Place → Scope → Scope → Prop
  | .inside, scope, other => scope = other ∧ IsFreeScope scope
  | .fixed, scope, other => IsFreeScope scope ∧ IsFreeScope other

/-- What may be captured there. -/
def Place.Allows : Place → Expr → Prop
  | .inside, source => isTame source = true
  | .fixed, source => IsConstant source

theorem Place.Admits.free {place : Place} {scope other : Scope} (admits : place.Admits scope other) :
    IsFreeScope scope ∧ IsFreeScope other := by
  cases place with
  | inside =>
    obtain ⟨rfl, free⟩ := admits
    exact ⟨free, free⟩
  | fixed => exact admits

theorem Place.allows_literal (place : Place) (value : Value) : place.Allows (.literal value) := by
  cases place <;> exact (by trivial)

/-! ## Evaluation of both programs -/

/-- Code with calls of fragments, and code with what is inlined for them, end
alike wherever they may stand. -/
def Simulates (world : World) (place : Place) (source plain : Expr) : Prop :=
  ∀ depth, depth ≤ world.depth → ∀ scope other, place.Admits scope other →
    Follows world SameContent (world.hoisted depth scope source) (world.inlined depth other plain)

mutual

theorem evaluate_constant (source : Expr) (constant : IsConstant source) :
    ∃ value : Datum, value.IsTame ∧
      ∀ environment enter scope, evaluate environment enter scope source = pure value := by
  match source, constant with
  | .literal value, _ =>
    exact ⟨.plain value, trivial, fun _ _ _ => by simp only [evaluate]⟩
  | .record entries, constant =>
    obtain ⟨fields, tame, always⟩ := evaluateEntries_constant entries constant [] trivial
    exact ⟨.record fields, tame, fun _ _ _ => by simp only [evaluate, always, pure_bind]⟩

theorem evaluateEntries_constant (entries : List (Key × Expr)) (constant : EntriesConstant entries)
    (done : List (String × Datum)) (tameDone : Datum.EntriesTame done) :
    ∃ fields : List (String × Datum), Datum.EntriesTame fields ∧ ∀ environment enter scope,
      evaluateEntries environment enter scope done entries = pure fields := by
  match entries, constant with
  | [], _ => exact ⟨done, tameDone, fun _ _ _ => by simp only [evaluateEntries]⟩
  | (key, source) :: rest, ⟨⟨name, fixed⟩, first, others⟩ =>
    obtain ⟨value, tame, always⟩ := evaluate_constant source first
    obtain ⟨fields, tameFields, alwaysThen⟩ := evaluateEntries_constant rest others
      (setEntry name value done) (setEntry_isTame tameDone tame name)
    exact ⟨fields, tameFields, fun _ _ _ => by
      simp only [fixed, evaluateEntries, evaluateKey, always, pure_bind, alwaysThen]⟩

end

section Pieces

variable (world : World) {place : Place}

theorem captured_follows {source : Expr} (allows : place.Allows source) (depth : Nat)
    {scope other : Scope} (admits : place.Admits scope other) :
    Follows world (fun value given => value = given ∧ given.IsTame)
      (world.hoisted depth scope source) (world.inlined depth other source) := by
  cases place with
  | inside =>
    obtain ⟨rfl, free⟩ := admits
    exact (@evaluateCalls_refines world.hoisting world.inlining rfl rfl _ _ depth depth (Nat.le_refl _)
      scope free.tame source allows).follows
  | fixed =>
    obtain ⟨value, tame, always⟩ := evaluate_constant source allows
    rw [World.hoisted, World.inlined, evaluateCalls_entrance, evaluateCalls_entrance, always, always]
    exact .pure ⟨rfl, tame⟩

variable {world} in
theorem Simulates.captured {source : Expr} (allows : place.Allows source) :
    Simulates world place source source :=
  fun depth _ _ _ admits => (captured_follows world allows depth admits).mono
    fun _ given same => same.1 ▸ .same given

end Pieces

/-! ## Calls -/

section Calls

variable {world : World} {place : Place}

theorem arguments_follow {environment otherEnvironment : Environment} {enter otherEnter : Entrance}
    {scope other : Scope} {related : Datum → Datum → Prop} {sources plains : List Expr}
    (each : List.Forall₂ (fun source plain => Follows world related
      (evaluate environment enter scope source) (evaluate otherEnvironment otherEnter other plain))
      sources plains) :
    Follows world (List.Forall₂ related) (evaluateAll environment enter scope sources)
      (evaluateAll otherEnvironment otherEnter other plains) := by
  induction each with
  | nil =>
    simp only [evaluateAll]
    exact .pure .nil
  | cons first rest ih =>
    simp only [evaluateAll]
    exact first.bind fun value given same => ih.bind fun values others behind =>
      .pure (.cons same behind)

theorem captured_arguments {sources : List Expr} (allowed : ∀ source ∈ sources, place.Allows source)
    (depth : Nat) {scope other : Scope} (admits : place.Admits scope other) :
    Follows world Eq
      (evaluateAll world.hoisting (entrance world.hoisting world.enterFragment depth) scope sources)
      (evaluateAll world.inlining (entrance world.inlining (fun _ => throw .tooDeep) depth) other
        sources) := by
  have each : ∀ source ∈ sources, Follows world Eq
      (evaluate world.hoisting (entrance world.hoisting world.enterFragment depth) scope source)
      (evaluate world.inlining (entrance world.inlining (fun _ => throw .tooDeep) depth) other
        source) := by
    intro source held
    have run := captured_follows world (allowed source held) depth admits
    rw [World.hoisted, World.inlined, evaluateCalls_entrance, evaluateCalls_entrance] at run
    exact run.mono fun _ _ same => same.1
  exact (arguments_follow (List.forall₂_same.mpr each)).mono fun _ _ same => by
    rwa [List.forall₂_eq_eq_eq] at same

theorem firstNodes_mark {arguments others : List Datum}
    (same : List.Forall₂ SameContent arguments others) :
    Tree.Node.AllMark ((arguments.head?.map nodesOf).getD []) ((others.head?.map nodesOf).getD []) := by
  cases same with
  | nil => exact rfl
  | cons first rest => exact first.nodes

theorem createElement_tag {tag : String} (named : tag ≠ "") {arguments others : List Datum}
    (same : List.Forall₂ SameContent arguments others) :
    ∃ node other, createElement (.plain (.string tag) :: arguments) = .ok (.node node) ∧
      createElement (.plain (.string tag) :: others) = .ok (.node other) ∧ node.Marks other := by
  have unnamed : (tag == "") = false := beq_eq_false_iff_ne.mpr named
  have children := firstNodes_mark same
  simp only [createElement, unnamed, Bool.false_eq_true, if_false]
  cases same with
  | nil => exact ⟨_, _, rfl, rfl, .refl _⟩
  | @cons first other rest others same behind =>
    have inside := firstNodes_mark behind
    cases same with
    | node marks => exact ⟨_, _, rfl, rfl, _, _, rfl, .inl rfl, children⟩
    | list all => exact ⟨_, _, rfl, rfl, _, _, rfl, .inl rfl, children⟩
    | same =>
      cases first with
      | record entries => exact ⟨_, _, rfl, rfl, _, _, rfl, .inl rfl, inside⟩
      | plain _ | node _ | list _ | listeners _ | closure _ _ _ =>
        exact ⟨_, _, rfl, rfl, _, _, rfl, .inl rfl, children⟩

theorem createElement_follows {arguments others : List Datum}
    (same : List.Forall₂ SameContent arguments others) :
    Follows world SameContent (Eval.ofExcept (createElement arguments))
      (Eval.ofExcept (createElement others)) := by
  cases same with
  | nil => exact .fail _
  | @cons first other rest others same behind =>
    cases same with
    | node marks => exact .fail _
    | list all => exact .fail _
    | same =>
      cases first with
      | plain value =>
        cases value with
        | string tag =>
          by_cases named : tag = ""
          · subst named
            exact .fail _
          · obtain ⟨node, other, made, madeToo, marks⟩ := createElement_tag named behind
            rw [made, madeToo]
            exact .pure (.node marks)
        | undefined => exact .pure (.same _)
        | null => exact .pure (.same _)
        | boolean _ | number _ | list _ | record _ => exact .fail _
      | node _ | list _ | record _ | listeners _ | closure _ _ _ => exact .fail _

theorem helperCall_simulates {name : String} (helper : startsWith ['_'] name.toList = true)
    {sources plains : List Expr} (each : List.Forall₂ (Simulates world place) sources plains)
    (called : ∀ enter otherEnter arguments others, List.Forall₂ SameContent arguments others →
      Follows world SameContent (callBuiltin world.hoisting enter name arguments)
        (callBuiltin world.inlining otherEnter name others)) :
    Simulates world place (helperCall name sources) (helperCall name plains) := by
  intro depth within scope other admits
  obtain ⟨free, freeOther⟩ := admits.free
  rw [World.hoisted, World.inlined, evaluateCalls_entrance, evaluateCalls_entrance,
    evaluate_helperCall helper (free.lookup helper), evaluate_helperCall helper (freeOther.lookup helper)]
  refine (arguments_follow (each.imp fun source plain simulates => ?_)).bind
    fun arguments others same => called _ _ arguments others same
  have run := simulates depth within scope other admits
  rwa [World.hoisted, World.inlined, evaluateCalls_entrance, evaluateCalls_entrance] at run

theorem Simulates.element {sources plains : List Expr}
    (each : List.Forall₂ (Simulates world place) sources plains) :
    Simulates world place (helperCall "_c" sources) (helperCall "_c" plains) :=
  helperCall_simulates (by decide) each fun _ _ _ _ same => createElement_follows same

theorem Simulates.list {sources plains : List Expr}
    (each : List.Forall₂ (Simulates world place) sources plains) :
    Simulates world place (.list sources) (.list plains) := by
  intro depth within scope other admits
  rw [World.hoisted, World.inlined, evaluateCalls_entrance, evaluateCalls_entrance]
  simp only [evaluate]
  refine (arguments_follow (each.imp fun source plain simulates => ?_)).bind
    fun values given same => .pure (.list (SameContent.all same))
  have run := simulates depth within scope other admits
  rwa [World.hoisted, World.inlined, evaluateCalls_entrance, evaluateCalls_entrance] at run

theorem Simulates.conditional {test : Expr} (allows : place.Allows test)
    {whenTrue whenFalse plainTrue plainFalse : Expr}
    (first : Simulates world place whenTrue plainTrue)
    (second : Simulates world place whenFalse plainFalse) :
    Simulates world place (.conditional test whenTrue whenFalse)
      (.conditional test plainTrue plainFalse) := by
  intro depth within scope other admits
  have tested := captured_follows world allows depth admits
  have one := first depth within scope other admits
  have two := second depth within scope other admits
  rw [World.hoisted, World.inlined, evaluateCalls_entrance, evaluateCalls_entrance] at tested one two ⊢
  simp only [evaluate]
  refine tested.bind ?_
  rintro value given ⟨rfl, -⟩
  cases value.isTruthy with
  | true => exact one
  | false => exact two

theorem Simulates.leaf {name : String} (named : name = "_v" ∨ name = "_e") {contents : List Expr}
    (allows : ∀ content ∈ contents, place.Allows content) :
    Simulates world place (helperCall name contents) (helperCall name contents) := by
  intro depth _ scope other admits
  obtain ⟨free, freeOther⟩ := admits.free
  have helper : startsWith ['_'] name.toList = true := by
    rcases named with rfl | rfl <;> decide
  rw [World.hoisted, World.inlined, evaluateCalls_entrance, evaluateCalls_entrance,
    evaluate_helperCall helper (free.lookup helper), evaluate_helperCall helper (freeOther.lookup helper)]
  refine (captured_arguments allows depth admits).bind ?_
  rintro arguments _ rfl
  rcases named with rfl | rfl <;> exact .pure (.same _)

theorem body_follows {source plain : Expr} (simulates : Simulates world place source plain)
    {depth : Nat} (within : depth ≤ world.depth) {scope other : Scope}
    (admits : place.Admits scope other) :
    Follows world SameContent
      ((entrance world.hoisting world.enterFragment depth).body scope source)
      ((entrance world.inlining (fun _ => throw .tooDeep) depth).body other plain) := by
  cases depth with
  | zero => exact .tooDeep _
  | succ depth => exact simulates depth (Nat.le_of_succ_le within) scope other admits

theorem renderRows_follow {turn otherTurn : List Datum → Eval Datum} {rows : List (List Datum)}
    (each : ∀ row ∈ rows, Follows world SameContent (turn row) (otherTurn row)) :
    Follows world (List.Forall₂ SameContent) (renderRows turn rows) (renderRows otherTurn rows) := by
  induction rows with
  | nil => exact .pure .nil
  | cons row rest ih =>
    obtain ⟨first, others⟩ := List.forall_mem_cons.mp each
    exact first.bind fun _ _ same => (ih others).bind fun _ _ behind => .pure (.cons same behind)

theorem Simulates.loop {source : Expr} (tame : isTame source = true) {targets : List Pattern}
    (binds : bindsFreely targets = true) {body plain : Expr}
    (simulates : Simulates world .inside body plain) :
    Simulates world .inside (helperCall "_l" [source, .function targets body])
      (helperCall "_l" [source, .function targets plain]) := by
  rintro depth within scope _ ⟨rfl, free⟩
  have helper : startsWith ['_'] "_l".toList = true := by decide
  have rows := @captured_follows world .inside source tame depth scope scope ⟨rfl, free⟩
  rw [World.hoisted, World.inlined, evaluateCalls_entrance, evaluateCalls_entrance] at rows ⊢
  rw [evaluate_helperCall helper (free.lookup helper), evaluate_helperCall helper (free.lookup helper)]
  simp only [evaluateAll, evaluate, pure_bind, bind_assoc]
  refine rows.bind ?_
  rintro value given ⟨rfl, tameValue⟩
  simp only [callBuiltin, renderList]
  refine (renderRows_follow fun row held => ?_).bind fun items others same =>
    .pure (.list (SameContent.all same))
  exact body_follows simulates within
    ⟨rfl, (bindParameters_isFree binds (rowsOf_isTame tameValue row held)).reverse.append free⟩

theorem Simulates.outlet {name : Expr} (named : place.Allows name) {inner plain : Expr}
    (simulates : Simulates world place inner plain) {others : List Expr}
    (allowed : ∀ item ∈ others, place.Allows item) :
    Simulates world place (helperCall "_t" (name :: .function [] inner :: others))
      (helperCall "_t" (name :: .function [] plain :: others)) := by
  intro depth within scope other admits
  have helper : startsWith ['_'] "_t".toList = true := by decide
  obtain ⟨free, freeOther⟩ := admits.free
  have shown := captured_follows world named depth admits
  have fallback := body_follows simulates within admits
  rw [World.hoisted, World.inlined, evaluateCalls_entrance, evaluateCalls_entrance] at shown ⊢
  rw [evaluate_helperCall helper (free.lookup helper), evaluate_helperCall helper (freeOther.lookup helper)]
  simp only [evaluateAll, evaluate, pure_bind, bind_assoc]
  refine shown.bind ?_
  rintro value given ⟨rfl, -⟩
  refine (captured_arguments allowed depth admits).bind fun _ _ _ => ?_
  simp only [callBuiltin, renderOutlet, World.hoisting, World.inlining, List.getElem?_cons_zero,
    List.getElem?_cons_succ]
  split
  · exact .pure (.same _)
  · exact fallback

theorem Simulates.emptyOutlet {name : Expr} (named : place.Allows name) {others : List Expr}
    (plain : others = [] ∨ ∃ more, others = .literal .null :: more)
    (allowed : ∀ item ∈ others, place.Allows item) :
    Simulates world place (helperCall "_t" (name :: others)) (helperCall "_t" (name :: others)) := by
  intro depth within scope other admits
  have helper : startsWith ['_'] "_t".toList = true := by decide
  obtain ⟨free, freeOther⟩ := admits.free
  have shown := captured_follows world named depth admits
  rw [World.hoisted, World.inlined, evaluateCalls_entrance, evaluateCalls_entrance] at shown ⊢
  rw [evaluate_helperCall helper (free.lookup helper), evaluate_helperCall helper (freeOther.lookup helper)]
  rcases plain with rfl | ⟨more, rfl⟩
  · simp only [evaluateAll, bind_assoc, pure_bind]
    refine shown.bind ?_
    rintro value given ⟨rfl, -⟩
    simp only [callBuiltin, renderOutlet, World.hoisting, World.inlining, List.getElem?_cons_succ,
      List.getElem?_nil]
    split <;> exact .pure (.same _)
  · simp only [evaluateAll, evaluate, bind_assoc, pure_bind]
    refine shown.bind ?_
    rintro value given ⟨rfl, -⟩
    refine (captured_arguments (fun item held => allowed item (List.mem_cons_of_mem _ held)) depth
      admits).bind fun _ _ _ => ?_
    simp only [callBuiltin, renderOutlet, World.hoisting, World.inlining, List.getElem?_cons_succ,
      List.getElem?_cons_zero]
    split <;> exact .pure (.same _)

end Calls

/-! ## What code makes -/

/-- The step ends with a fault, or with what `holds` is true of. -/
def OnlyGives {α : Type} (holds : α → Prop) (step : Eval α) : Prop :=
  ∀ cache value, (step cache).1 = .ok value → holds value

section Only

variable {α β : Type} {holds : α → Prop}

theorem OnlyGives.pure {value : α} (given : holds value) : OnlyGives holds (Pure.pure value) :=
  fun _ _ same => Except.ok.inj same ▸ given

theorem OnlyGives.throw (halt : Halt) : OnlyGives holds (MonadExcept.throw halt) :=
  fun _ _ same => by cases same

theorem OnlyGives.ofExcept {result : Except Fault α} (given : ∀ value, result = .ok value → holds value) :
    OnlyGives holds (Eval.ofExcept result) := by
  cases result with
  | ok value => exact .pure (given value rfl)
  | error fault => exact .throw _

theorem OnlyGives.bind (step : Eval β) {next : β → Eval α} (behind : ∀ value, OnlyGives holds (next value)) :
    OnlyGives holds (step >>= next) := by
  intro cache value same
  rw [run_bind] at same
  generalize step cache = run at same
  obtain ⟨result, after⟩ := run
  cases result with
  | ok given => exact behind given after value same
  | error halt => cases same

end Only

/-- Wherever the code stands without fragments, it makes only what `holds` is
true of. -/
def World.Makes (world : World) (holds : Datum → Prop) (source : Expr) : Prop :=
  ∀ depth scope, IsFreeScope scope → OnlyGives holds (world.inlined depth scope source)

def Datum.IsNode : Datum → Prop
  | .node _ => True
  | _ => False

theorem Datum.IsNode.isThere {datum : Datum} (single : datum.IsNode) : datum.IsThere := by
  cases datum <;> trivial

namespace World.Makes

variable {world : World} {holds : Datum → Prop}

theorem mono {weaker : Datum → Prop} {source : Expr} (makes : world.Makes holds source)
    (implied : ∀ datum, holds datum → weaker datum) : world.Makes weaker source :=
  fun depth scope free cache value same => implied value (makes depth scope free cache value same)

theorem element (arguments : List Expr) : world.Makes Datum.IsNode (helperCall "_c" arguments) := by
  intro depth scope free
  rw [World.inlined, evaluateCalls_entrance, evaluate_helperCall (by decide) (free.lookup (by decide))]
  refine .bind _ fun values => .ofExcept fun value made => ?_
  obtain ⟨node, rfl⟩ := createElement_node made
  trivial

theorem comment (arguments : List Expr) : world.Makes Datum.IsNode (helperCall "_e" arguments) := by
  intro depth scope free
  rw [World.inlined, evaluateCalls_entrance, evaluate_helperCall (by decide) (free.lookup (by decide))]
  exact .bind _ fun values => .pure trivial

theorem conditional (test : Expr) {whenTrue whenFalse : Expr} (one : world.Makes holds whenTrue)
    (two : world.Makes holds whenFalse) : world.Makes holds (.conditional test whenTrue whenFalse) := by
  intro depth scope free
  have accepted := one depth scope free
  have refused := two depth scope free
  rw [World.inlined, evaluateCalls_entrance] at accepted refused ⊢
  simp only [evaluate]
  refine .bind _ fun value => ?_
  split
  · exact accepted
  · exact refused

theorem list (items : List Expr) : world.Makes Datum.IsThere (.list items) := by
  intro depth scope free
  rw [World.inlined, evaluateCalls_entrance]
  simp only [evaluate]
  exact .bind _ fun values => .pure trivial

theorem outlet (name : Expr) {inner : Expr} (makes : world.Makes Datum.IsThere inner)
    (others : List Expr) :
    world.Makes Datum.IsThere (helperCall "_t" (name :: .function [] inner :: others)) := by
  intro depth scope free
  rw [World.inlined, evaluateCalls_entrance, evaluate_helperCall (by decide) (free.lookup (by decide))]
  simp only [evaluateAll, evaluate, bind_assoc, pure_bind]
  refine .bind _ fun value => .bind _ fun values => ?_
  simp only [callBuiltin, renderOutlet, List.getElem?_cons_succ, List.getElem?_cons_zero]
  split
  · exact .pure trivial
  · cases depth with
    | zero => exact .throw _
    | succ depth => exact makes depth scope free

end World.Makes

/-! ## Calls of fragments -/

mutual

theorem isTame_of_isInert (source : Expr) (inert : IsInert source) : isTame source = true := by
  match source, inert with
  | .literal _, _ => rfl
  | .call _ arguments, ⟨⟨name, made, same⟩, all⟩ =>
    subst same
    have noFragment : namesFragments (.name name) = false := by
      simp only [makers, List.mem_cons, List.not_mem_nil, or_false] at made
      rcases made with rfl | rfl | rfl | rfl <;> decide
    simp only [isTame, noFragment, allTame_of_allInert arguments all, Bool.not_false, Bool.and_self]
  | .list items, all => exact allTame_of_allInert items all
  | .record entries, all => exact entriesTame_of_entriesInert entries all
  | .function _ body, ⟨bare, inertBody⟩ =>
    subst bare
    simp only [isTame, isTame_of_isInert body inertBody, bindsFreely, List.all_nil, Bool.and_self]

theorem allTame_of_allInert (items : List Expr) (inert : AllInert items) : allTame items = true := by
  match items, inert with
  | [], _ => rfl
  | item :: rest, ⟨first, others⟩ =>
    simp only [allTame, isTame_of_isInert item first, allTame_of_allInert rest others, Bool.and_self]

theorem entriesTame_of_entriesInert (entries : List (Key × Expr)) (inert : EntriesInert entries) :
    entriesTame entries = true := by
  match entries, inert with
  | [], _ => rfl
  | (_, value) :: rest, ⟨⟨name, same⟩, first, others⟩ =>
    subst same
    simp only [entriesTame, keyTame, isTame_of_isInert value first,
      entriesTame_of_entriesInert rest others, Bool.and_self]

end

section Fragments

variable {world : World} {index : Nat} {source : Expr}

/-- What is built of a fragment has the content of its source, wherever that
stands. -/
theorem built_follows (found : world.fragments[index]? = some source)
    (simulates : Simulates world .fixed source source) (there : world.Makes Datum.IsThere source)
    {depth : Nat} (within : depth ≤ world.depth) {scope : Scope} (free : IsFreeScope scope) :
    ∃ final, Gives (world.inlined depth scope source) final ∧ (final = .error .tooDeep ∨
      Ends (fun kept value => SameContent kept.toDatum value) (world.built index) final) := by
  obtain ⟨final, gives, ends⟩ := simulates depth within [] scope ⟨.nil, free⟩
  refine ⟨final, gives, ends.imp id fun ends => ?_⟩
  have run := (ends [] (.nil _)).1
  obtain ⟨levels, counted⟩ := Nat.exists_eq_succ_of_ne_zero
    (Nat.ne_zero_of_lt (List.getElem?_eq_some_iff.mp found).1)
  let enter : Entrance := ⟨fun _ _ => throw .tooDeep, world.enterFragment⟩
  have entered : enter.fragment source = evaluateCalls world.hoisting
      (enterBelow world.hoisting world.depth levels) world.depth [] source := by
    rw [← evaluateFragments_eq_below]
    change enterBelow world.hoisting world.depth world.fragments.length source = _
    rw [counted]
    rfl
  -- the fragment is built as deep as a render goes, which is deep enough
  obtain ⟨result, shallow, deep, -⟩ := @evaluateCalls_refines world.hoisting world.hoisting rfl rfl
    (enterBelow world.hoisting world.depth levels) world.enterFragment depth world.depth within []
    trivial source (isTame_of_isInert source (world.inert source (List.mem_of_getElem? found)))
  rw [World.hoisted, shallow] at run
  have builds := @World.builds world enter rfl index []
  have listed : world.hoisting.fragments[index]? = some source := found
  rw [buildFragment, listed] at builds
  simp only [run_bind, entered] at builds
  cases run with
  | fault fault =>
    rcases deep with impossible | deep
    · cases impossible
    rw [deep] at builds
    have same : world.built index = .error (.fault fault) := (congrArg Prod.fst builds).symm
    rw [same]
    exact .fault fault
  | @ok value given content =>
    rcases deep with impossible | deep
    · cases impossible
    have isThere := there depth scope free [] given (by rw [gives])
    obtain ⟨kept, made, same⟩ := content.fragment isThere index
    rw [deep] at builds
    dsimp only at builds
    rw [made] at builds
    have keeps : world.built index = .ok kept := (congrArg Prod.fst builds).symm
    rw [keeps]
    exact .ok same

theorem Simulates.fragment (found : world.fragments[index]? = some source)
    (exact : index < Number.twoTo 53) (simulates : Simulates world .fixed source source)
    (there : world.Makes Datum.IsThere source) (inLoop : Bool) :
    Simulates world .inside (fragmentCall index inLoop) source := by
  rintro depth within scope _ ⟨rfl, free⟩
  obtain ⟨final, gives, ends⟩ := built_follows found simulates there within free
  refine ⟨final, gives, ends.imp id fun ends cache good => ?_⟩
  have builds := world.builds (entrance_fragment world.hoisting world.enterFragment depth)
  have shown {step : Eval Fragment} (same : (step cache).1 = world.built index)
      (still : IsGood world.built (step cache).2) :
      Ends SameContent ((step >>= fun kept => pure kept.toDatum) cache).1 final ∧
        IsGood world.built ((step >>= fun kept => pure kept.toDatum) cache).2 := by
    rw [run_bind]
    generalize step cache = run at same still
    obtain ⟨result, after⟩ := run
    dsimp only at same
    rw [← same] at ends
    cases ends with
    | ok content => exact ⟨.ok content, still⟩
    | fault fault => exact ⟨.fault fault, still⟩
  rw [World.hoisted, evaluateCalls_entrance, evaluate_fragmentCall exact (free.lookup (by decide))]
  cases inLoop with
  | false =>
    obtain ⟨same, still⟩ := keptFragment_ends builds index good
    exact shown same still
  | true => exact shown (by rw [if_pos rfl, builds]) (by rw [if_pos rfl, builds]; exact good)

end Fragments

end Templating.Evaluation
