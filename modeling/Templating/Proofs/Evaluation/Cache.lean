import Templating.Evaluation.Instance
import Templating.Proofs.Evaluation.Inert
import Templating.Proofs.Evaluation.Marks
import Templating.Proofs.Translation.Executable
import Templating.Proofs.Translation.Hoisting
/-!
# What is kept does not show

When every fragment that is kept is the one that would be built now, a render
ends as it would with nothing kept, and keeps only such fragments again, also
where it fails half way.  The fragments of a template that renders nothing once
are inert, so they stay good whatever becomes of the data.
-/
set_option autoImplicit false

namespace Templating.Evaluation

open Templating.Data Templating.Expression Templating.Rendering Templating.Template

/-- Every fragment that is kept is the one that is built for its index. -/
def IsGood (built : Nat → Except Halt Fragment) (cache : FragmentCache) : Prop :=
  ∀ index kept, cache.lookup index = some kept → built index = .ok kept

theorem IsGood.nil (built : Nat → Except Halt Fragment) : IsGood built [] :=
  fun _ _ found => by cases found

theorem IsGood.cons {built : Nat → Except Halt Fragment} {cache : FragmentCache}
    (good : IsGood built cache) {index : Nat} {fragment : Fragment}
    (builds : built index = .ok fragment) : IsGood built ((index, fragment) :: cache) := by
  intro other kept found
  rw [List.lookup_cons] at found
  split at found
  · next same =>
    cases found
    rw [eq_of_beq same, builds]
  · exact good other kept found

section Steps

variable {built : Nat → Except Halt Fragment} {α β : Type}

/-- The step ends alike with all good caches, and leaves them good. -/
def Invisible (built : Nat → Except Halt Fragment) (step : Eval α) : Prop :=
  ∃ result, ∀ cache, IsGood built cache → (step cache).1 = result ∧ IsGood built (step cache).2

theorem Gives.invisible {step : Eval α} {result : Except Halt α} (gives : Gives step result) :
    Invisible built step := ⟨result, fun cache good => by rw [gives]; exact ⟨rfl, good⟩⟩

theorem Invisible.pure (value : α) : Invisible built (Pure.pure value : Eval α) :=
  ⟨.ok value, fun _ good => ⟨rfl, good⟩⟩

theorem Invisible.throw (halt : Halt) : Invisible built (MonadExcept.throw halt : Eval α) :=
  ⟨.error halt, fun _ good => ⟨rfl, good⟩⟩

theorem Invisible.fail (fault : Fault) : Invisible built (Eval.fail fault : Eval α) := .throw _

theorem Invisible.ofExcept (result : Except Fault α) : Invisible built (Eval.ofExcept result) := by
  cases result with
  | ok value => exact .pure value
  | error fault => exact .throw _

theorem Invisible.bind {step : Eval α} {next : α → Eval β} (first : Invisible built step)
    (second : ∀ value, Invisible built (next value)) : Invisible built (step >>= next) := by
  obtain ⟨result, ends⟩ := first
  cases result with
  | ok value =>
    obtain ⟨final, endsThen⟩ := second value
    refine ⟨final, fun cache good => ?_⟩
    obtain ⟨same, still⟩ := ends cache good
    have run : step cache = (.ok value, (step cache).2) := Prod.ext same rfl
    rw [run_bind, run]
    exact endsThen _ still
  | error halt =>
    refine ⟨.error halt, fun cache good => ?_⟩
    obtain ⟨same, still⟩ := ends cache good
    have run : step cache = (.error halt, (step cache).2) := Prod.ext same rfl
    rw [run_bind, run]
    exact ⟨rfl, still⟩

end Steps

/-! ## Evaluation with good caches -/

section Evaluation

variable {built : Nat → Except Halt Fragment} {environment : Environment} {enter : Entrance}

theorem keptFragment_run {index : Nat}
    (builds : Gives (buildFragment environment enter index) (built index)) (cache : FragmentCache) :
    keptFragment environment enter index cache =
      match cache.lookup index with
      | some kept => (.ok kept, cache)
      | none =>
        match built index with
        | .ok fragment => (.ok fragment, (index, fragment) :: cache)
        | .error halt => (.error halt, cache) := by
  have got : (get : Eval FragmentCache) cache = (.ok cache, cache) := rfl
  rw [keptFragment, run_bind, got]
  dsimp only
  cases cache.lookup index with
  | some kept => rfl
  | none =>
    simp only [run_bind, builds cache]
    cases built index <;> rfl

theorem evaluate_fragmentCall {index : Nat} (exact : index < Number.twoTo 53) {scope : Scope}
    (unhidden : scope.lookup "_m" = none) (inLoop : Bool) :
    evaluate environment enter scope (fragmentCall index inLoop) =
      (if inLoop then buildFragment environment enter index
        else keptFragment environment enter index) >>= fun kept => pure kept.toDatum := by
  have position := fragmentIndex_numeral exact
  rw [fragmentCall, evaluate_helperCall (by decide) unhidden]
  cases inLoop with
  | false =>
    simp only [Bool.false_eq_true, if_false, evaluateAll, numberExpr, evaluate, pure_bind]
    change renderFragment _ _ [.ofNumber _] = _
    rw [renderFragment, position]
    rfl
  | true =>
    simp only [if_true, evaluateAll, numberExpr, booleanExpr, evaluate, pure_bind]
    change renderFragment _ _ [.ofNumber _, .ofBool true] = _
    rw [renderFragment, position]
    rfl

theorem keptFragment_ends
    (builds : ∀ index, Gives (buildFragment environment enter index) (built index)) (index : Nat)
    {cache : FragmentCache} (good : IsGood built cache) :
    (keptFragment environment enter index cache).1 = built index ∧
      IsGood built (keptFragment environment enter index cache).2 := by
  rw [keptFragment_run (builds index)]
  cases kept : cache.lookup index with
  | some fragment => exact ⟨(good index fragment kept).symm, good⟩
  | none =>
    cases result : built index with
    | ok fragment => exact ⟨rfl, good.cons result⟩
    | error halt => exact ⟨rfl, good⟩

theorem keptFragment_invisible
    (builds : ∀ index, Gives (buildFragment environment enter index) (built index)) (index : Nat) :
    Invisible built (keptFragment environment enter index) :=
  ⟨built index, fun _ good => keptFragment_ends builds index good⟩

/-- Fragments are built alike whatever is kept, and functions end alike with all
good caches. -/
structure EntersInvisibly (built : Nat → Except Halt Fragment) (environment : Environment)
    (enter : Entrance) : Prop where
  builds : ∀ index, Gives (buildFragment environment enter index) (built index)
  bodies : ∀ scope body, Invisible built (enter.body scope body)

theorem renderRows_invisible {turn : List Datum → Eval Datum}
    (turns : ∀ row, Invisible built (turn row)) (rows : List (List Datum)) :
    Invisible built (renderRows turn rows) := by
  induction rows with
  | nil => exact .pure []
  | cons row rest ih => exact (turns row).bind fun _ => ih.bind fun _ => .pure _

section Calls

variable (enters : EntersInvisibly built environment enter)

include enters

theorem renderFragment_invisible (arguments : List Datum) :
    Invisible built (renderFragment environment enter arguments) := by
  unfold renderFragment
  split
  · exact .fail _
  · next index _ =>
    split
    · exact (enters.builds index).invisible.bind fun _ => .pure _
    · exact (keptFragment_invisible enters.builds index).bind fun _ => .pure _

theorem applyClosure_invisible (parameters : List Pattern) (body : Expr) (scope : Scope)
    (arguments : List Datum) : Invisible built (applyClosure enter parameters body scope arguments) :=
  enters.bodies _ body

theorem callBuiltin_invisible (name : String) (arguments : List Datum) :
    Invisible built (callBuiltin environment enter name arguments) := by
  unfold callBuiltin
  split
  · exact .ofExcept _
  · exact .pure _
  · exact .pure _
  · exact .pure _
  · exact renderFragment_invisible enters arguments
  · exact .pure _
  · unfold renderList
    split
    · exact (renderRows_invisible (applyClosure_invisible enters _ _ _) _).bind fun _ =>
        .pure _
    · exact .fail _
  · unfold renderOutlet
    split
    · exact .pure _
    · split
      · exact applyClosure_invisible enters _ _ _ _
      · exact .pure _
  · exact .ofExcept _
  · exact .fail _

theorem callDatum_invisible (name : String) (callee : Datum) (arguments : List Datum) :
    Invisible built (callDatum enter name callee arguments) := by
  unfold callDatum
  split
  · exact applyClosure_invisible enters _ _ _ _
  · exact .fail _

theorem callName_invisible (scope : Scope) (name : String) (arguments : List Datum) :
    Invisible built (callName environment enter scope name arguments) := by
  unfold callName
  split
  · exact callDatum_invisible enters _ _ _
  · split
    · exact callBuiltin_invisible enters _ _
    · split
      · exact .fail _
      · exact .ofExcept _

theorem callMember_invisible (target : Datum) (property : String) (arguments : List Datum) :
    Invisible built (callMember enter target property arguments) := by
  refine (Invisible.ofExcept _).bind fun found => ?_
  split
  · exact applyClosure_invisible enters _ _ _ _
  · exact .ofExcept _

end Calls

mutual

theorem evaluate_invisible (enters : EntersInvisibly built environment enter) (scope : Scope)
    (source : Expr) : Invisible built (evaluate environment enter scope source) := by
  match source with
  | .literal _ | .this | .name _ | .function _ _ => simp only [evaluate]; exact .pure _
  | .member target property =>
    simp only [evaluate]
    exact (evaluate_invisible enters scope target).bind fun _ => .ofExcept _
  | .index target key =>
    simp only [evaluate]
    exact (evaluate_invisible enters scope target).bind fun _ =>
      (evaluate_invisible enters scope key).bind fun _ => .ofExcept _
  | .call callee arguments =>
    simp only [evaluate]
    refine (evaluateAll_invisible enters scope arguments).bind fun values => ?_
    split
    · exact callName_invisible enters _ _ _
    · next target property =>
      exact (evaluate_invisible enters scope target).bind fun _ => callMember_invisible enters _ _ _
    · exact (evaluate_invisible enters scope callee).bind fun _ => callDatum_invisible enters _ _ _
  | .unary operator operand =>
    simp only [evaluate]
    exact (evaluate_invisible enters scope operand).bind fun _ => .pure _
  | .binary operator left right =>
    simp only [evaluate]
    refine (evaluate_invisible enters scope left).bind fun value => ?_
    split
    · exact .pure _
    · exact (evaluate_invisible enters scope right).bind fun _ => .pure _
  | .conditional test whenTrue whenFalse =>
    simp only [evaluate]
    refine (evaluate_invisible enters scope test).bind fun value => ?_
    split
    · exact evaluate_invisible enters scope whenTrue
    · exact evaluate_invisible enters scope whenFalse
  | .list items =>
    simp only [evaluate]
    exact (evaluateAll_invisible enters scope items).bind fun _ => .pure _
  | .record entries =>
    simp only [evaluate]
    exact (evaluateEntries_invisible enters scope [] entries).bind fun _ => .pure _
  | .listeners entries =>
    simp only [evaluate]
    exact (evaluateListeners_invisible enters scope entries).bind fun _ => .pure _

theorem evaluateAll_invisible (enters : EntersInvisibly built environment enter) (scope : Scope)
    (items : List Expr) : Invisible built (evaluateAll environment enter scope items) := by
  match items with
  | [] => simp only [evaluateAll]; exact .pure _
  | item :: rest =>
    simp only [evaluateAll]
    exact (evaluate_invisible enters scope item).bind fun _ =>
      (evaluateAll_invisible enters scope rest).bind fun _ => .pure _

theorem evaluateKey_invisible (enters : EntersInvisibly built environment enter) (scope : Scope)
    (key : Key) : Invisible built (evaluateKey environment enter scope key) := by
  match key with
  | .fixed name => simp only [evaluateKey]; exact .pure _
  | .computed expression =>
    simp only [evaluateKey]
    exact (evaluate_invisible enters scope expression).bind fun _ => .pure _

theorem evaluateEntries_invisible (enters : EntersInvisibly built environment enter)
    (scope : Scope) (done : List (String × Datum)) (entries : List (Key × Expr)) :
    Invisible built (evaluateEntries environment enter scope done entries) := by
  match entries with
  | [] => simp only [evaluateEntries]; exact .pure _
  | (key, value) :: rest =>
    simp only [evaluateEntries]
    exact (evaluateKey_invisible enters scope key).bind fun _ =>
      (evaluate_invisible enters scope value).bind fun _ =>
        evaluateEntries_invisible enters scope _ rest

theorem evaluateListeners_invisible (enters : EntersInvisibly built environment enter)
    (scope : Scope) (entries : List (Key × String)) :
    Invisible built (evaluateListeners environment enter scope entries) := by
  match entries with
  | [] => simp only [evaluateListeners]; exact .pure _
  | (key, source) :: rest =>
    simp only [evaluateListeners]
    exact (evaluateKey_invisible enters scope key).bind fun _ =>
      (evaluateListeners_invisible enters scope rest).bind fun _ => .pure _

end

end Evaluation

theorem evaluateCalls_invisible {built : Nat → Except Halt Fragment} {environment : Environment}
    {fragment : Expr → Eval Datum}
    (builds : ∀ enter : Entrance, enter.fragment = fragment →
      ∀ index, Gives (buildFragment environment enter index) (built index))
    (depth : Nat) (scope : Scope) (source : Expr) :
    Invisible built (evaluateCalls environment fragment depth scope source) := by
  induction depth generalizing scope source with
  | zero => exact evaluate_invisible ⟨builds _ rfl, fun _ _ => .throw .tooDeep⟩ scope source
  | succ depth ih => exact evaluate_invisible ⟨builds _ rfl, ih⟩ scope source

def enterBelow (environment : Environment) (depth : Nat) : Nat → Expr → Eval Datum
  | 0 => fun _ => throw .tooDeep
  | levels + 1 => evaluateFragments environment depth levels

theorem evaluateFragments_eq_below (environment : Environment) (depth levels : Nat) (source : Expr) :
    evaluateFragments environment depth levels source =
      evaluateCalls environment (enterBelow environment depth levels) depth [] source := by
  cases levels <;> rfl

/-! ## Inert fragments -/

section Inert

variable {fragments : List Expr} (inert : ∀ source ∈ fragments, IsInert source)
  (slots : Dictionary (List Tree.Node)) (depth : Nat)

def withoutData (fragments : List Expr) (slots : Dictionary (List Tree.Node)) : Environment :=
  ⟨.undefined, fragments, slots⟩

/-- Fragments are entered, but no function and no fragment from inside them. -/
def plainEntrance (environment : Environment) (depth : Nat) : Entrance :=
  ⟨fun _ _ => throw .tooDeep, evaluateCalls environment (fun _ => throw .tooDeep) depth []⟩

/-- The fragment at `index` of inert fragments.  It is built without data. -/
def inertFragment (fragments : List Expr) (slots : Dictionary (List Tree.Node)) (depth : Nat)
    (index : Nat) : Except Halt Fragment :=
  let environment := withoutData fragments slots
  (buildFragment environment (plainEntrance environment depth) index []).1

include inert

theorem buildFragment_inert (data : Value) {enter : Entrance} {fragment : Expr → Eval Datum}
    (enters : enter.fragment = evaluateCalls ⟨data, fragments, slots⟩ fragment depth [])
    (index : Nat) :
    Gives (buildFragment ⟨data, fragments, slots⟩ enter index)
      (inertFragment fragments slots depth index) := by
  have coincide : Coincide (fun _ => True) (buildFragment ⟨data, fragments, slots⟩ enter index)
      (buildFragment (withoutData fragments slots)
        (plainEntrance (withoutData fragments slots) depth) index) := by
    simp only [buildFragment, withoutData]
    cases found : fragments[index]? with
    | none => exact .throw _
    | some source =>
      have evaluated : Coincide IsHarmless
          (evaluateCalls ⟨data, fragments, slots⟩ fragment depth [] source)
          (evaluateCalls ⟨.undefined, fragments, slots⟩ (fun _ => throw .tooDeep) depth []
            source) := by
        refine evaluateCalls_coincide ?_ _ _ depth source ?_
        · rfl
        · exact inert source (List.mem_of_getElem? found)
      simp only [enters, plainEntrance]
      exact evaluated.bind fun _ _ => .ofExcept fun _ _ => trivial
  obtain ⟨result, gives, otherGives, -⟩ := coincide
  have same : inertFragment fragments slots depth index = result := by
    rw [inertFragment, otherGives]
  rw [same]
  exact gives

theorem enterBelow_builds (data : Value) {enter : Entrance}
    (enters : enter.fragment = enterBelow ⟨data, fragments, slots⟩ depth fragments.length)
    (index : Nat) :
    Gives (buildFragment ⟨data, fragments, slots⟩ enter index)
      (inertFragment fragments slots depth index) := by
  cases counted : fragments.length with
  | zero =>
    have none : fragments[index]? = none := List.getElem?_eq_none (by omega)
    simp only [inertFragment, buildFragment, withoutData, none]
    exact fun _ => rfl
  | succ levels =>
    rw [counted] at enters
    cases levels <;> exact buildFragment_inert inert slots depth data enters index

theorem renderWithin_invisible (data : Value) (program : Expr) :
    Invisible (inertFragment fragments slots depth)
      (renderWithin ⟨data, fragments, slots⟩ depth program) := by
  refine Invisible.bind ?_ fun _ => .ofExcept _
  rw [evaluateFragments_eq_below]
  exact evaluateCalls_invisible (fun enter same => enterBelow_builds inert slots depth data same)
    depth [] program

end Inert

/-! ## Runs of an instance -/

/-- What is done with an instance: its data is replaced, or it is rendered. -/
inductive Use where
  | setData (data : Value)
  | render

/-- What the renders among the uses end with, where the instance keeps what it
has rendered. -/
def Instance.outcomes (target : Instance) : List Use → List (Except Halt Tree.Node)
  | [] => []
  | .setData data :: rest => (target.setData data).outcomes rest
  | .render :: rest => target.render.1 :: target.render.2.outcomes rest

def Instance.fresh (functions : Functions) (slots : Dictionary (List Tree.Node)) (data : Value) :
    Instance := ⟨functions, data, slots, []⟩

/-- What the first render of a fresh instance ends with, for each render among
the uses. -/
def freshOutcomes (functions : Functions) (slots : Dictionary (List Tree.Node)) :
    Value → List Use → List (Except Halt Tree.Node)
  | _, [] => []
  | _, .setData data :: rest => freshOutcomes functions slots data rest
  | data, .render :: rest =>
    (Instance.fresh functions slots data).render.1 :: freshOutcomes functions slots data rest

/-- The functions are inert in their fragments. -/
def Functions.HaveInertFragments (functions : Functions) : Prop :=
  ∀ function ∈ functions.fragments, IsInert function.body

section Runs

variable {functions : Functions} (inert : functions.HaveInertFragments)
  {slots : Dictionary (List Tree.Node)}

include inert

theorem render_invisible (data : Value) {cache : FragmentCache}
    (good : IsGood (inertFragment (functions.fragments.map SourceFunction.body) slots
      Instance.standardDepth) cache) :
    let target : Instance := ⟨functions, data, slots, cache⟩
    target.render.1 = (Instance.fresh functions slots data).render.1 ∧
      ∃ after, IsGood (inertFragment (functions.fragments.map SourceFunction.body) slots
        Instance.standardDepth) after ∧ target.render.2 = ⟨functions, data, slots, after⟩ := by
  intro target
  have sources : ∀ source ∈ functions.fragments.map SourceFunction.body, IsInert source := by
    intro source held
    obtain ⟨function, inside, rfl⟩ := List.mem_map.mp held
    exact inert function inside
  obtain ⟨result, ends⟩ := renderWithin_invisible sources slots Instance.standardDepth data
    functions.render.body
  obtain ⟨same, still⟩ := ends cache good
  obtain ⟨fresh, -⟩ := ends [] (.nil _)
  exact ⟨same.trans fresh.symm, _, still, rfl⟩

theorem outcomes_of_inert (uses : List Use) {data : Value} {cache : FragmentCache}
    (good : IsGood (inertFragment (functions.fragments.map SourceFunction.body) slots
      Instance.standardDepth) cache) :
    (⟨functions, data, slots, cache⟩ : Instance).outcomes uses =
      freshOutcomes functions slots data uses := by
  induction uses generalizing data cache with
  | nil => rfl
  | cons step rest ih =>
    cases step with
    | setData given => exact ih good
    | render =>
      obtain ⟨same, after, still, kept⟩ := render_invisible inert data good
      rw [Instance.outcomes, freshOutcomes, same, kept, ih still]

end Runs

/-! ## Functions of templates -/

theorem bodies_inert {index : Nat} {sources : List String} {functions : List SourceFunction}
    (made : fragmentFunctions index sources = .ok functions)
    (inert : ∀ source ∈ sources, IsInertSource source) :
    ∀ function ∈ functions, IsInert function.body := by
  induction sources generalizing index functions with
  | nil =>
    cases made
    exact fun _ held => by cases held
  | cons source rest ih =>
    obtain ⟨meaning, parsed, inertFirst⟩ := inert source List.mem_cons_self
    have first : SourceFunction.ofSource? source = some ⟨source, meaning⟩ := by
      rw [SourceFunction.ofSource?, parsed]
      rfl
    rw [fragmentFunctions, first] at made
    cases others : fragmentFunctions (index + 1) rest with
    | error fault =>
      rw [others] at made
      cases made
    | ok more =>
      rw [others] at made
      cases made
      exact List.forall_mem_cons.mpr
        ⟨inertFirst, ih others fun given held => inert given (List.mem_cons_of_mem _ held)⟩

theorem fragmentFunctions_of_ofTemplate {settings : Settings} {template : String}
    {functions : Functions} (made : Functions.ofTemplate settings template = .ok functions) :
    fragmentFunctions 0 (compile settings template).fragments = .ok functions.fragments := by
  rw [Functions.ofTemplate, Functions.ofSources] at made
  split at made
  · cases made
  · cases others : fragmentFunctions 0 (compile settings template).fragments with
    | error fault =>
      rw [others] at made
      cases made
    | ok fragments =>
      rw [others] at made
      cases made
      rfl

theorem ofTemplate_of_new {base : Settings} {overlay : Overlay} {template : String} {handle : Handle}
    (made : ((Compiler.new base).functions overlay template).1 = .ok handle) :
    Functions.ofTemplate (base.overlaid overlay) template = .ok handle.functions := by
  have missing (key : FunctionKey) : Compiler.find? key (Compiler.new base).kept = none := rfl
  have settings : (Compiler.new base).settings = base := rfl
  have makes (key : Option FunctionKey)
      (made : ((Compiler.new base).make key (base.overlaid overlay) template).1 = .ok handle) :
      Functions.ofTemplate (base.overlaid overlay) template = .ok handle.functions := by
    cases result : Functions.ofTemplate (base.overlaid overlay) template with
    | error fault =>
      delta Compiler.make at made
      rw [result] at made
      cases made
    | ok functions =>
      rw [make_of_ofTemplate result] at made
      cases made
      rfl
  rw [Compiler.functions] at made
  cases plain : overlay.isPlain with
  | true =>
    simp only [plain, if_true, missing] at made
    exact makes _ made
  | false =>
    simp only [plain, Bool.false_eq_true, if_false] at made
    exact makes _ made

/-- What the functions of a template first render, without nodes for outlets. -/
def firstRender (settings : Settings) (template : String) (data : Value) : Option Tree.Node :=
  (Functions.ofTemplate settings template).toOption.bind fun functions =>
    (Instance.fresh functions [] data).render.1.toOption

theorem eq_ok_of_toOption {ε α : Type} {result : Except ε α} {value : α}
    (found : result.toOption = some value) : result = .ok value := by
  cases result with
  | ok other => exact congrArg Except.ok (Option.some.inj found)
  | error halt => cases found

theorem render_of_firstRender {base : Settings} {overlay : Overlay} {template : String} {handle : Handle}
    (made : ((Compiler.new base).functions overlay template).1 = .ok handle) {data : Value}
    {node : Tree.Node} (shown : firstRender (base.overlaid overlay) template data = some node) :
    (Instance.fresh handle.functions [] data).render.1 = .ok node := by
  rw [firstRender, ofTemplate_of_new made] at shown
  exact eq_ok_of_toOption shown

theorem functions_of_firstRender {base : Settings} {overlay : Overlay} {template : String} {data : Value}
    {node : Tree.Node} (shown : firstRender (base.overlaid overlay) template data = some node) :
    ∃ handle, ((Compiler.new base).functions overlay template).1 = .ok handle ∧
      (Instance.fresh handle.functions [] data).render.1 = .ok node := by
  obtain ⟨functions, found, -⟩ := Option.bind_eq_some_iff.mp shown
  obtain ⟨handle, made⟩ := @functions_of_ofTemplate (Compiler.new base) overlay template
    ⟨functions, eq_ok_of_toOption found⟩
  exact ⟨handle, made, render_of_firstRender made shown⟩

/-- What an instance keeps does not show.  In a template that renders nothing
once, every render of a run ends as the first render of a fresh instance on the
data at hand. -/
theorem outcomes_eq_freshOutcomes {base : Settings} (known : IsBase base) {overlay : Overlay}
    (plain : overlay.isPlain = true) (template : String)
    (repeatable : (compile (base.overlaid overlay) template).document.EveryHead IsRepeatable)
    {handle : Handle} (made : ((Compiler.new base).functions overlay template).1 = .ok handle)
    (slots : Dictionary (List Tree.Node)) (data : Value) (uses : List Use) :
    (Instance.fresh handle.functions slots data).outcomes uses =
      freshOutcomes handle.functions slots data uses := by
  have inert : handle.functions.HaveInertFragments :=
    bodies_inert (fragmentFunctions_of_ofTemplate (ofTemplate_of_new made))
      (fragments_inert known plain template repeatable)
  exact outcomes_of_inert inert uses (.nil _)

/-- A static part beside a condition, before and after a change of data. -/
theorem outcomes_of_alert :
    let template := "<div><b>s</b><p v-if=\"a\">\x7b\x7b a.b \x7d\x7d</p></div>"
    (compile (Web.settings.overlaid .empty) template).document.EveryHead IsRepeatable ∧
      ∃ handle, ((Compiler.new Web.settings).functions .empty template).1 = .ok handle ∧
        ∀ data : Value, (Instance.fresh handle.functions [] .undefined).outcomes
            [.render, .setData data, .render] =
          freshOutcomes handle.functions [] .undefined [.render, .setData data, .render] := by
  intro template
  have repeatable :
      (compile (Web.settings.overlaid .empty) template).document.EveryHead IsRepeatable := by
    decide +kernel
  have accepted : (Functions.ofTemplate (Web.settings.overlaid .empty) template).toBool = true := by
    decide +kernel
  obtain ⟨handle, made⟩ : ∃ handle,
      ((Compiler.new Web.settings).functions .empty template).1 = .ok handle := by
    refine functions_of_ofTemplate ?_
    cases result : Functions.ofTemplate (Web.settings.overlaid .empty) template with
    | ok functions => exact ⟨functions, result⟩
    | error fault =>
      rw [result] at accepted
      cases accepted
  exact ⟨repeatable, handle, made, fun data =>
    outcomes_eq_freshOutcomes (.inl rfl) rfl template repeatable made [] .undefined _⟩

end Templating.Evaluation
