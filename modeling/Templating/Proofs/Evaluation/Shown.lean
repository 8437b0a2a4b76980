import Templating.Proofs.Evaluation.Cache
import Templating.Proofs.Evaluation.Keys
import Templating.Proofs.Evaluation.Tame
/-!
# Code that shows its own fragments

Code that calls fragments with numbers from a range, each of them once, shows
their keys and no others.  A loop may only be around code that shows none.
-/
set_option autoImplicit false

namespace Templating.Evaluation

open Templating.Text Templating.Data Templating.Expression Templating.Rendering
  Templating.Tree.Node

/-! ## Steps with a result -/

section Steps

variable {built : Nat → Except Halt Fragment} {α β : Type}

/-- With all good caches the step ends alike, leaves them good, and makes only
what `holds` is true of. -/
def Makes (built : Nat → Except Halt Fragment) (holds : α → Prop) (step : Eval α) : Prop :=
  ∃ result, (∀ cache, IsGood built cache → (step cache).1 = result ∧ IsGood built (step cache).2) ∧
    ∀ value, result = .ok value → holds value

variable {holds : α → Prop} {holdsThen : β → Prop}

theorem Invisible.makes {step : Eval α} (invisible : Invisible built step) :
    Makes built (fun _ => True) step := by
  obtain ⟨result, ends⟩ := invisible
  exact ⟨result, ends, fun _ _ => trivial⟩

theorem Makes.pure {value : α} (given : holds value) : Makes built holds (Pure.pure value) :=
  ⟨.ok value, fun _ good => ⟨rfl, good⟩, fun _ same => Except.ok.inj same ▸ given⟩

theorem Makes.throw (halt : Halt) : Makes built holds (MonadExcept.throw halt) :=
  ⟨.error halt, fun _ good => ⟨rfl, good⟩, fun _ same => by cases same⟩

theorem Makes.fail (fault : Fault) : Makes built holds (Eval.fail fault) := .throw _

theorem Makes.ofExcept {result : Except Fault α} (given : ∀ value, result = .ok value → holds value) :
    Makes built holds (Eval.ofExcept result) := by
  cases result with
  | ok value => exact .pure (given value rfl)
  | error fault => exact .throw _

theorem Makes.mono {weaker : α → Prop} {step : Eval α} (makes : Makes built holds step)
    (implied : ∀ value, holds value → weaker value) : Makes built weaker step := by
  obtain ⟨result, ends, given⟩ := makes
  exact ⟨result, ends, fun value same => implied value (given value same)⟩

theorem Makes.bind {step : Eval α} {next : α → Eval β} (first : Makes built holds step)
    (second : ∀ value, holds value → Makes built holdsThen (next value)) :
    Makes built holdsThen (step >>= next) := by
  obtain ⟨result, ends, given⟩ := first
  cases result with
  | ok value =>
    obtain ⟨final, endsThen, givenThen⟩ := second value (given value rfl)
    refine ⟨final, fun cache good => ?_, givenThen⟩
    obtain ⟨same, still⟩ := ends cache good
    have run : step cache = (.ok value, (step cache).2) := Prod.ext same rfl
    rw [run_bind, run]
    exact endsThen _ still
  | error halt =>
    refine ⟨.error halt, fun cache good => ?_, fun _ same => by cases same⟩
    obtain ⟨same, still⟩ := ends cache good
    have run : step cache = (.error halt, (step cache).2) := Prod.ext same rfl
    rw [run_bind, run]
    exact ⟨rfl, still⟩

end Steps

/-! ## Scopes -/

def HidesNoHelper (scope : Scope) : Prop := ∀ entry ∈ scope, isFreeName entry.1 = true

theorem HidesNoHelper.lookup {scope : Scope} (hides : HidesNoHelper scope) {name : String}
    (helper : startsWith ['_'] name.toList = true) : scope.lookup name = none := by
  rw [List.lookup_eq_none_iff]
  intro entry held
  rw [bne_iff_ne]
  rintro rfl
  have free := hides entry held
  rw [isFreeName, helper] at free
  cases free

theorem bindParameters_hidesNoHelper {parameters : List Pattern} (free : bindsFreely parameters = true)
    (arguments : List Datum) : HidesNoHelper (bindParameters parameters arguments) := by
  have bound {pattern : Pattern} (named : (patternNames pattern).all isFreeName = true) (value : Datum) :
      HidesNoHelper (bindPattern value pattern) := by
    intro entry held
    have inside := List.mem_map_of_mem (f := Prod.fst) held
    rw [bindPattern_names] at inside
    exact List.all_eq_true.mp named _ inside
  induction parameters generalizing arguments with
  | nil => exact fun _ held => by cases held
  | cons pattern patterns ih =>
    rw [bindsFreely, List.all_cons, Bool.and_eq_true] at free
    cases arguments with
    | nil => exact List.forall_mem_append.mpr ⟨bound free.1 _, ih free.2 _⟩
    | cons argument arguments => exact List.forall_mem_append.mpr ⟨bound free.1 _, ih free.2 _⟩

/-! ## Where code runs -/

/-- What code is bound to, without nodes for outlets.  Fragments are built alike
whatever is kept. -/
structure Stage where
  environment : Environment
  fragment : Expr → Eval Datum
  built : Nat → Except Halt Fragment
  bare : environment.slots = []
  builds : ∀ enter : Entrance, enter.fragment = fragment →
    ∀ index, Gives (buildFragment environment enter index) (built index)

namespace Stage

variable (stage : Stage)

def enter : Nat → Entrance
  | 0 => ⟨fun _ _ => throw .tooDeep, stage.fragment⟩
  | depth + 1 => ⟨evaluateCalls stage.environment stage.fragment depth, stage.fragment⟩

def run (depth : Nat) (scope : Scope) (source : Expr) : Eval Datum :=
  evaluate stage.environment (stage.enter depth) scope source

theorem run_eq (depth : Nat) (scope : Scope) (source : Expr) :
    stage.run depth scope source =
      evaluateCalls stage.environment stage.fragment depth scope source := by
  cases depth <;> rfl

theorem enter_fragment (depth : Nat) : (stage.enter depth).fragment = stage.fragment := by
  cases depth <;> rfl

theorem enters (depth : Nat) : EntersInvisibly stage.built stage.environment (stage.enter depth) where
  builds := stage.builds _ (stage.enter_fragment depth)
  bodies := by
    cases depth with
    | zero => exact fun _ _ => .throw .tooDeep
    | succ depth => exact evaluateCalls_invisible stage.builds depth

theorem run_makes (depth : Nat) (scope : Scope) (source : Expr) :
    Makes stage.built (fun _ => True) (stage.run depth scope source) :=
  (evaluate_invisible (stage.enters depth) scope source).makes

theorem body_makes {holds : Datum → Prop} {scope : Scope} {source : Expr}
    (makes : ∀ depth, Makes stage.built holds (stage.run depth scope source)) (depth : Nat) :
    Makes stage.built holds ((stage.enter depth).body scope source) := by
  cases depth with
  | zero => exact .throw .tooDeep
  | succ depth =>
    have same := makes depth
    rwa [stage.run_eq] at same

theorem run_helperCall {scope : Scope} (hides : HidesNoHelper scope) {name : String}
    (helper : startsWith ['_'] name.toList = true) (arguments : List Expr) (depth : Nat) :
    stage.run depth scope (helperCall name arguments) =
      evaluateAll stage.environment (stage.enter depth) scope arguments >>=
        callBuiltin stage.environment (stage.enter depth) name := by
  rw [run, evaluate_helperCall helper (hides.lookup helper)]

/-- What is built of a fragment shows the keys of that fragment, and calls with
its number find it. -/
structure Supplies (index : Nat) : Prop where
  exact : index < Number.twoTo 53
  shows : ∀ kept, stage.built index = .ok kept → ShowsOwn False index (index + 1) kept.toDatum

end Stage

/-! ## Code that shows its own -/

section Code

variable (stage : Stage)

/-- Wherever the code runs, it shows own keys of fragments in the range, and
where it is `quiet`, none. -/
def YieldsOwn (quiet : Prop) (first last : Nat) (source : Expr) : Prop :=
  (∀ index < last, stage.Supplies index) → ∀ depth scope, HidesNoHelper scope →
    Makes stage.built (ShowsOwn quiet first last) (stage.run depth scope source)

def AreApart (datum : Datum) : Prop := (staticKeys (nodesOf datum)).Nodup ∧ AllApart (nodesOf datum)

def YieldsApart (last : Nat) (source : Expr) : Prop :=
  (∀ index < last, stage.Supplies index) → ∀ depth scope, HidesNoHelper scope →
    Makes stage.built AreApart (stage.run depth scope source)

/-- The parts show own keys of fragments in ranges that follow each other. -/
inductive PartsYield (quiet : Prop) : Nat → Nat → List Expr → Prop where
  | nil (first : Nat) : PartsYield quiet first first []
  | cons {first middle last : Nat} {part : Expr} {rest : List Expr} (ordered : first ≤ middle)
      (further : middle ≤ last) (here : YieldsOwn stage quiet first middle part)
      (later : PartsYield quiet middle last rest) : PartsYield quiet first last (part :: rest)

variable {stage} {quiet : Prop} {first middle last : Nat}

theorem ShowsOwn.mono {datum : Datum} (shows : ShowsOwn quiet first last datum) {lower upper : Nat}
    (below : lower ≤ first) (above : last ≤ upper) {other : Prop} (implied : other → quiet) :
    ShowsOwn other lower upper datum :=
  ⟨shows.apart, shows.owned.mono below above, fun given => shows.none (implied given)⟩

theorem showsOwn_of_none {datum : Datum} (apart : AllApart (nodesOf datum))
    (none : staticKeys (nodesOf datum) = []) : ShowsOwn quiet first last datum :=
  ⟨apart, none ▸ .nil first last, fun _ => none⟩

theorem ShowsOwn.areApart {datum : Datum} (shows : ShowsOwn quiet first last datum) : AreApart datum :=
  ⟨shows.owned.nodup, shows.apart⟩

theorem ShowsOwn.cons {datum : Datum} {others : List Datum} (here : ShowsOwn quiet first middle datum)
    (later : ShowsOwn quiet middle last (.list others)) (ordered : first ≤ middle)
    (further : middle ≤ last) : ShowsOwn quiet first last (.list (datum :: others)) where
  apart := here.apart.append later.apart
  owned := by
    have both := here.owned.append later.owned ordered further
    rwa [← staticKeys_append] at both
  none := by
    intro given
    have keys := staticKeys_append (nodesOf datum) (nodesOf (.list others))
    rw [here.none given, later.none given] at keys
    exact keys

theorem YieldsOwn.mono {source : Expr} (yields : YieldsOwn stage quiet first last source)
    {lower upper : Nat} (below : lower ≤ first) (above : last ≤ upper) {other : Prop}
    (implied : other → quiet) : YieldsOwn stage other lower upper source :=
  fun supplies depth scope hides =>
    (yields (fun index less => supplies index (less.trans_le above)) depth scope hides).mono
      fun _ shows => shows.mono below above implied

theorem YieldsOwn.yieldsApart {source : Expr} (yields : YieldsOwn stage quiet first last source) :
    YieldsApart stage last source :=
  fun supplies depth scope hides => (yields supplies depth scope hides).mono fun _ shows => shows.areApart

theorem PartsYield.list {parts : List Expr} (yields : PartsYield stage quiet first last parts) :
    YieldsOwn stage quiet first last (.list parts) := by
  intro supplies depth scope hides
  have all : Makes stage.built (fun values => ShowsOwn quiet first last (.list values))
      (evaluateAll stage.environment (stage.enter depth) scope parts) := by
    induction yields with
    | nil first =>
      simp only [evaluateAll]
      exact .pure (showsOwn_of_none trivial rfl)
    | cons ordered further here later ih =>
      simp only [evaluateAll]
      refine Makes.bind (here (fun index less => supplies index (less.trans_le further)) depth scope hides)
        fun value shows => (ih supplies).bind fun values others => .pure ?_
      exact shows.cons others ordered further
  simp only [Stage.run, evaluate]
  exact all.bind fun values shows => .pure shows

theorem evaluateAll_makes {holds : Datum → Prop} {depth : Nat} {scope : Scope} {sources : List Expr}
    (each : ∀ source ∈ sources, Makes stage.built holds (stage.run depth scope source)) :
    Makes stage.built (fun values => ∀ datum ∈ values, holds datum)
      (evaluateAll stage.environment (stage.enter depth) scope sources) := by
  induction sources with
  | nil =>
    simp only [evaluateAll]
    exact .pure fun _ held => by cases held
  | cons source rest ih =>
    obtain ⟨here, later⟩ := List.forall_mem_cons.mp each
    simp only [evaluateAll]
    exact Makes.bind here fun value given => (ih later).bind fun values others =>
      .pure (List.forall_mem_cons.mpr ⟨given, others⟩)

/-! ## Elements -/

theorem setProp_isStatic (draft : PropsDraft) (entry : String × Datum) :
    (setProp draft entry).props.isStatic = draft.props.isStatic := by
  unfold setProp
  split <;> first | rfl | (split <;> rfl)

theorem propsOf_isStatic (entries : List (String × Datum)) : (propsOf entries).isStatic = false := by
  have all (draft : PropsDraft) :
      (entries.foldl setProp draft).props.isStatic = draft.props.isStatic := by
    induction entries generalizing draft with
    | nil => rfl
    | cons entry rest ih => rw [List.foldl_cons, ih, setProp_isStatic]
  exact all _

/-- An element that is made is not marked, and its children come from one of the
arguments. -/
theorem createElement_showsOwn {tag : Datum} {others : List Datum} (apart : ∀ datum ∈ others, AreApart datum)
    {result : Datum} (made : createElement (tag :: others) = .ok result) :
    ShowsOwn quiet first last result := by
  have children {arguments : List Datum} (parts : ∀ datum ∈ arguments, AreApart datum) :
      (staticKeys ((arguments.head?.map nodesOf).getD [])).Nodup ∧
        AllApart ((arguments.head?.map nodesOf).getD []) := by
    cases arguments with
    | nil => exact ⟨List.nodup_nil, trivial⟩
    | cons datum rest => exact parts datum List.mem_cons_self
  have element {name : String} {props : Tree.Props} {nodes : List Tree.Node}
      (plain : props.isStatic = false) (below : (staticKeys nodes).Nodup ∧ AllApart nodes) :
      ShowsOwn quiet first last (.node (.element name props nodes)) := by
    refine showsOwn_of_none ⟨below, trivial⟩ ?_
    simp [nodesOf, staticKeys, staticKey?, plain]
  unfold createElement at made
  simp only at made
  split at made
  · split at made
    · cases made
    · next same _ =>
      obtain ⟨-, rfl⟩ := List.cons.inj same
      cases made
      split
      · exact element (propsOf_isStatic _) (children (List.forall_mem_cons.mp apart).2)
      · exact element rfl (children apart)
  · cases made
    exact showsOwn_of_none ⟨trivial, trivial⟩ rfl
  · cases made
    exact showsOwn_of_none ⟨trivial, trivial⟩ rfl
  · cases made

theorem YieldsOwn.element (tag : Expr) {others : List Expr}
    (apart : ∀ source ∈ others, YieldsApart stage last source) :
    YieldsOwn stage quiet first last (helperCall "_c" (tag :: others)) := by
  intro supplies depth scope hides
  rw [stage.run_helperCall hides (by decide)]
  simp only [evaluateAll, bind_assoc, pure_bind]
  refine Makes.bind (stage.run_makes depth scope tag) fun tag _ => ?_
  refine (evaluateAll_makes fun source held => apart source held supplies depth scope hides).bind
    fun values parts => ?_
  exact .ofExcept fun result made => createElement_showsOwn parts made

theorem yieldsApart_record (entries : List (Key × Expr)) : YieldsApart stage last (.record entries) := by
  intro supplies depth scope hides
  simp only [Stage.run, evaluate]
  exact (evaluateEntries_invisible (stage.enters depth) scope [] entries).makes.bind
    fun _ _ => .pure ⟨List.nodup_nil, trivial⟩

theorem yieldsApart_spread (arguments : List Expr) :
    YieldsApart stage last (helperCall "_b" arguments) := by
  intro supplies depth scope hides
  rw [stage.run_helperCall hides (by decide)]
  refine (evaluateAll_invisible (stage.enters depth) scope arguments).makes.bind fun values _ => ?_
  refine .ofExcept fun result made => ?_
  unfold spreadObject at made
  split at made
  · simp only at made
    split at made <;> cases made <;> exact ⟨List.nodup_nil, trivial⟩
  · cases made

/-! ## Other code -/

theorem YieldsOwn.literal (value : Value) : YieldsOwn stage quiet first last (.literal value) := by
  intro supplies depth scope hides
  simp only [Stage.run, evaluate]
  exact .pure (showsOwn_of_none (allApart_value value) (staticKeys_value value))

theorem YieldsOwn.leaf {name : String} (named : name = "_v" ∨ name = "_e") (arguments : List Expr) :
    YieldsOwn stage quiet first last (helperCall name arguments) := by
  intro supplies depth scope hides
  have helper : startsWith ['_'] name.toList = true := by
    rcases named with rfl | rfl <;> decide
  rw [stage.run_helperCall hides helper]
  refine (evaluateAll_invisible (stage.enters depth) scope arguments).makes.bind fun values _ => ?_
  rcases named with rfl | rfl <;> exact .pure (showsOwn_of_none ⟨trivial, trivial⟩ rfl)

theorem YieldsOwn.conditional (test : Expr) {whenTrue whenFalse : Expr} (ordered : first ≤ middle)
    (further : middle ≤ last) (one : YieldsOwn stage quiet first middle whenTrue)
    (two : YieldsOwn stage quiet middle last whenFalse) :
    YieldsOwn stage quiet first last (.conditional test whenTrue whenFalse) := by
  intro supplies depth scope hides
  have accepted := one.mono (Nat.le_refl _) further id supplies depth scope hides
  have refused := two.mono ordered (Nat.le_refl _) id supplies depth scope hides
  simp only [Stage.run, evaluate] at accepted refused ⊢
  refine Makes.bind (stage.run_makes depth scope test) fun value _ => ?_
  split
  · exact accepted
  · exact refused

theorem YieldsOwn.loop (source : Expr) {targets : List Pattern} (binds : bindsFreely targets = true)
    {body : Expr} (silent : YieldsOwn stage True first last body) :
    YieldsOwn stage quiet first last (helperCall "_l" [source, .function targets body]) := by
  intro supplies depth scope hides
  have turn (row : List Datum) : Makes stage.built (ShowsOwn True first first)
      (applyClosure (stage.enter depth) targets body scope row) := by
    refine stage.body_makes (fun depth => ?_) depth
    refine (silent supplies depth _ (List.forall_mem_append.mpr ⟨fun entry held => ?_, hides⟩)).mono
      fun _ shows => showsOwn_of_none shows.apart (shows.none trivial)
    exact bindParameters_hidesNoHelper binds row entry (List.mem_reverse.mp held)
  have rows (given : List (List Datum)) :
      Makes stage.built (fun items => ShowsOwn True first first (.list items))
        (renderRows (applyClosure (stage.enter depth) targets body scope) given) := by
    induction given with
    | nil => exact .pure (showsOwn_of_none trivial rfl)
    | cons row rest ih =>
      exact (turn row).bind fun _ shows => ih.bind fun _ others =>
        .pure (shows.cons others (Nat.le_refl _) (Nat.le_refl _))
  rw [stage.run_helperCall hides (by decide)]
  simp only [evaluateAll, evaluate, bind_assoc, pure_bind]
  refine Makes.bind (stage.run_makes depth scope source) fun value _ => ?_
  simp only [callBuiltin, renderList]
  exact (rows (rowsOf value)).bind fun items shows =>
    .pure (showsOwn_of_none shows.apart (shows.none trivial))

theorem YieldsOwn.outlet (name : Expr) {inner : Expr} (yields : YieldsOwn stage quiet first last inner)
    (others : List Expr) :
    YieldsOwn stage quiet first last (helperCall "_t" (name :: .function [] inner :: others)) := by
  intro supplies depth scope hides
  rw [stage.run_helperCall hides (by decide)]
  simp only [evaluateAll, evaluate, bind_assoc, pure_bind]
  refine Makes.bind (stage.run_makes depth scope name) fun value _ => ?_
  refine (evaluateAll_invisible (stage.enters depth) scope others).makes.bind fun values _ => ?_
  simp only [callBuiltin, renderOutlet, stage.bare, Dictionary.find?, List.getElem?_cons_succ,
    List.getElem?_cons_zero]
  exact stage.body_makes (fun depth => yields supplies depth _ hides) depth

theorem YieldsOwn.emptyOutlet (name : Expr) {others : List Expr}
    (plain : others = [] ∨ ∃ more, others = .literal .null :: more) :
    YieldsOwn stage quiet first last (helperCall "_t" (name :: others)) := by
  intro supplies depth scope hides
  have nothing : ShowsOwn quiet first last Datum.undefined := showsOwn_of_none trivial rfl
  rw [stage.run_helperCall hides (by decide)]
  rcases plain with rfl | ⟨more, rfl⟩
  · simp only [evaluateAll, bind_assoc, pure_bind]
    refine Makes.bind (stage.run_makes depth scope name) fun value _ => ?_
    simp only [callBuiltin, renderOutlet, stage.bare, Dictionary.find?, List.getElem?_cons_succ,
      List.getElem?_nil]
    exact .pure nothing
  · simp only [evaluateAll, evaluate, bind_assoc, pure_bind]
    refine Makes.bind (stage.run_makes depth scope name) fun value _ => ?_
    refine (evaluateAll_invisible (stage.enters depth) scope more).makes.bind fun values _ => ?_
    simp only [callBuiltin, renderOutlet, stage.bare, Dictionary.find?, List.getElem?_cons_succ,
      List.getElem?_cons_zero]
    exact .pure nothing

theorem YieldsOwn.fragment (index : Nat) (inLoop : Bool) :
    YieldsOwn stage False index (index + 1) (helperCall "_m"
      (numberExpr index :: if inLoop then [booleanExpr true] else [])) := by
  intro supplies depth scope hides
  obtain ⟨exact, shows⟩ := supplies index (Nat.lt_succ_self index)
  have anew : Makes stage.built (ShowsOwn False index (index + 1) ∘ Fragment.toDatum)
      (buildFragment stage.environment (stage.enter depth) index) :=
    ⟨stage.built index, fun cache good => by
      rw [(stage.enters depth).builds]
      exact ⟨rfl, good⟩, shows⟩
  have once : Makes stage.built (ShowsOwn False index (index + 1) ∘ Fragment.toDatum)
      (keptFragment stage.environment (stage.enter depth) index) :=
    ⟨stage.built index, fun _ good => keptFragment_ends (stage.enters depth).builds index good, shows⟩
  have call := @evaluate_fragmentCall stage.environment (stage.enter depth) index exact scope
    (hides.lookup (by decide)) inLoop
  rw [fragmentCall] at call
  rw [Stage.run, call]
  cases inLoop with
  | false => exact once.bind fun _ shows => .pure shows
  | true => exact anew.bind fun _ shows => .pure shows

end Code

end Templating.Evaluation
