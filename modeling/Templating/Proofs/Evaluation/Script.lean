import Templating.Proofs.Evaluation.Inert
/-!
# Scripts

Evaluation meets what is kept only where it calls for a fragment.  A script is
what is left of it when these calls are not answered: a result, or a fragment to
call for and how to go on with it.  Evaluation is its script with the calls
answered, whatever is kept and however fragments are built.
-/
set_option autoImplicit false

namespace Templating.Evaluation

open Templating.Text Templating.Data Templating.Expression

inductive Script (α : Type) where
  | done (result : Except Halt α)
  /-- The fragment is kept unless it is called for inside a loop. -/
  | call (index : Nat) (isKept : Bool) (next : Fragment → Script α)

namespace Script

variable {α β : Type}

def andThen : Script α → (α → Script β) → Script β
  | .done (.ok value), next => next value
  | .done (.error halt), _ => .done (.error halt)
  | .call index isKept rest, next => .call index isKept fun fragment => (rest fragment).andThen next

instance : Monad Script where
  pure value := .done (.ok value)
  bind := andThen

def throw (halt : Halt) : Script α := .done (.error halt)

def ofExcept (result : Except Fault α) : Script α := .done (result.mapError .fault)

def fail (fault : Fault) : Script α := throw (.fault fault)

end Script

/-! ## Scripts of calls -/

section Calls

variable (environment : Environment) (body : Scope → Expr → Script Datum)

def scriptClosure (parameters : List Pattern) (source : Expr) (scope : Scope)
    (arguments : List Datum) : Script Datum :=
  body ((bindParameters parameters arguments).reverse ++ scope) source

def scriptFragment (arguments : List Datum) : Script Datum :=
  match fragmentIndex? arguments with
  | none => .fail (.illegalArguments "_m" "a fragment index")
  | some index =>
    .call index (!arguments[1]?.any Datum.isTruthy) fun fragment => pure fragment.toDatum

def scriptRows (turn : List Datum → Script Datum) : List (List Datum) → Script (List Datum)
  | [] => pure []
  | row :: rest => do
    let item ← turn row
    pure (item :: (← scriptRows turn rest))

def scriptList : List Datum → Script Datum
  | source :: .closure parameters inner scope :: _ => do
    pure (.list (← scriptRows (scriptClosure body parameters inner scope) (rowsOf source)))
  | _ => .fail (.illegalArguments "_l" "a render function as second argument")

def scriptOutlet (arguments : List Datum) : Script Datum :=
  match Dictionary.find? (Datum.shown arguments[0]?) environment.slots with
  | some nodes => pure (.list (nodes.map .node))
  | none =>
    match (arguments[1]? : Option Datum) with
    | some (.closure parameters inner scope) => scriptClosure body parameters inner scope []
    | _ => pure .undefined

def scriptBuiltin (name : String) (arguments : List Datum) : Script Datum :=
  match name with
  | "_c" => .ofExcept (createElement arguments)
  | "_v" => pure (.node (.text (Datum.shown arguments[0]?)))
  | "_s" => pure (.ofString (Datum.shown arguments[0]?))
  | "_e" => pure (.node (.comment (Datum.shown arguments[0]?)))
  | "_m" => scriptFragment arguments
  | "_o" =>
    pure (markStatic (onceKey (Datum.shown arguments[1]?) (Datum.shown arguments[2]?))
      (arguments[0]?.getD .undefined))
  | "_l" => scriptList body arguments
  | "_t" => scriptOutlet environment body arguments
  | "_b" => .ofExcept (spreadObject arguments)
  | _ => .fail (.notCallable name)

def scriptDatum (name : String) (callee : Datum) (arguments : List Datum) : Script Datum :=
  match callee with
  | .closure parameters inner scope => scriptClosure body parameters inner scope arguments
  | _ => .fail (.notCallable name)

def scriptName (scope : Scope) (name : String) (arguments : List Datum) : Script Datum :=
  match scope.lookup name with
  | some bound => scriptDatum body name bound arguments
  | none =>
    if startsWith ['_'] name.toList then scriptBuiltin environment body name arguments
    else if (environment.data.member? name).isSome then .fail (.notCallable name)
    else .ofExcept ((callGlobal name (arguments.map Datum.toValue)).map .plain)

def scriptMember (target : Datum) (property : String) (arguments : List Datum) : Script Datum := do
  match ← Script.ofExcept (target.member property) with
  | .closure parameters inner scope => scriptClosure body parameters inner scope arguments
  | _ =>
    .ofExcept ((callMethod target.toValue property (arguments.map Datum.toValue)).map .plain)

/-! ## Scripts of expressions -/

mutual

def script (scope : Scope) : Expr → Script Datum
  | .literal value => pure (.plain value)
  | .this => pure (.plain environment.data)
  | .name name => pure (lookUp environment scope name)
  | .member target property => do .ofExcept ((← script scope target).member property)
  | .index target key => do
    let target ← script scope target
    let key ← script scope key
    .ofExcept (target.member key.propertyName)
  | .call callee arguments => do
    let arguments ← scriptAll scope arguments
    match callee with
    | .name name => scriptName environment body scope name arguments
    | .member target property => scriptMember body (← script scope target) property arguments
    | other => scriptDatum body (calleeName other) (← script scope other) arguments
  | .unary operator operand => do pure (applyUnary operator (← script scope operand))
  | .binary operator left right => do
    let left ← script scope left
    if decides operator left then pure left
    else pure (combine operator left (← script scope right))
  | .conditional test whenTrue whenFalse => do
    if (← script scope test).isTruthy then script scope whenTrue else script scope whenFalse
  | .list items => do pure (.list (← scriptAll scope items))
  | .record entries => do pure (.record (← scriptEntries scope [] entries))
  | .listeners entries => do pure (.listeners (← scriptListeners scope entries))
  | .function parameters inner => pure (.closure parameters inner scope)

def scriptAll (scope : Scope) : List Expr → Script (List Datum)
  | [] => pure []
  | item :: rest => do
    let datum ← script scope item
    pure (datum :: (← scriptAll scope rest))

def scriptKey (scope : Scope) : Key → Script String
  | .fixed name => pure name
  | .computed key => do pure (← script scope key).propertyName

def scriptEntries (scope : Scope) (done : List (String × Datum)) :
    List (Key × Expr) → Script (List (String × Datum))
  | [] => pure done
  | (key, value) :: rest => do
    let name ← scriptKey scope key
    let datum ← script scope value
    scriptEntries scope (setEntry name datum done) rest

def scriptListeners (scope : Scope) : List (Key × String) → Script (List (String × String))
  | [] => pure []
  | (key, source) :: rest => do
    let name ← scriptKey scope key
    pure ((name, source) :: (← scriptListeners scope rest))

end

end Calls

/-- The script of a source with functions nested at most `depth` deep. -/
def scriptCalls (environment : Environment) : Nat → Scope → Expr → Script Datum
  | 0, scope, source => script environment (fun _ _ => .throw .tooDeep) scope source
  | depth + 1, scope, source => script environment (scriptCalls environment depth) scope source

/-! ## Answers -/

def keep (build : Nat → Eval Fragment) (index : Nat) : Eval Fragment := do
  match (← get).lookup index with
  | some kept => pure kept
  | none =>
    let built ← build index
    modify fun cache => (index, built) :: cache
    pure built

def answer (build : Nat → Eval Fragment) (index : Nat) (isKept : Bool) : Eval Fragment :=
  if isKept then keep build index else build index

namespace Script

variable {α β : Type}

/-- Evaluates a script, where `build` gives the fragments that are not kept. -/
def run (build : Nat → Eval Fragment) : Script α → Eval α
  | .done (.ok value) => pure value
  | .done (.error halt) => MonadExcept.throw halt
  | .call index isKept next => do (next (← answer build index isKept)).run build

variable (build : Nat → Eval Fragment)

theorem run_done (result : Except Halt α) (cache : FragmentCache) :
    (done result).run build cache = (result, cache) := by
  cases result <;> rfl

theorem run_call (index : Nat) (isKept : Bool) (next : Fragment → Script α)
    (cache : FragmentCache) :
    (call index isKept next).run build cache =
      match answer build index isKept cache with
      | (.ok fragment, after) => (next fragment).run build after
      | (.error halt, after) => (.error halt, after) := by
  rw [run, run_bind]
  rcases answer build index isKept cache with ⟨_ | fragment, after⟩ <;> rfl

theorem run_call_ok {index : Nat} {isKept : Bool} {cache after : FragmentCache}
    {fragment : Fragment} (ended : answer build index isKept cache = (.ok fragment, after))
    (next : Fragment → Script α) :
    (call index isKept next).run build cache = (next fragment).run build after := by
  rw [run_call, ended]

theorem run_call_error {index : Nat} {isKept : Bool} {cache after : FragmentCache} {halt : Halt}
    (ended : answer build index isKept cache = (.error halt, after)) (next : Fragment → Script α) :
    (call index isKept next).run build cache = (.error halt, after) := by
  rw [run_call, ended]

@[simp]
theorem run_pure (value : α) : (pure value : Script α).run build = pure value := rfl

@[simp]
theorem run_fail (fault : Fault) : (fail fault : Script α).run build = Eval.fail fault := rfl

@[simp]
theorem run_ofExcept (result : Except Fault α) : (ofExcept result).run build = .ofExcept result := by
  cases result <;> rfl

@[simp]
theorem run_andThen (first : Script α) (next : α → Script β) :
    (first >>= next).run build = first.run build >>= fun value => (next value).run build := by
  funext cache
  induction first generalizing cache with
  | done result =>
    rw [run_bind, run_done]
    cases result <;> rfl
  | call index isKept rest ih =>
    rw [run_bind, run_call]
    refine (run_call build index isKept _ cache).trans ?_
    generalize answer build index isKept cache = answered
    obtain ⟨_ | fragment, after⟩ := answered
    · rfl
    · exact (ih fragment after).trans (run_bind _ _ after)

end Script

/-! ## Evaluation is its script -/

section Answered

variable {environment : Environment} {enter : Entrance} {body : Scope → Expr → Script Datum}

def EntersScripts (environment : Environment) (enter : Entrance)
    (body : Scope → Expr → Script Datum) : Prop :=
  ∀ scope source, enter.body scope source =
    (body scope source).run (buildFragment environment enter)

variable (enters : EntersScripts environment enter body)

include enters

theorem run_scriptClosure (parameters : List Pattern) (source : Expr) (scope : Scope)
    (arguments : List Datum) :
    (scriptClosure body parameters source scope arguments).run (buildFragment environment enter) =
      applyClosure enter parameters source scope arguments :=
  (enters _ source).symm

omit enters in
theorem run_scriptRows {turn : List Datum → Script Datum} {step : List Datum → Eval Datum}
    (turns : ∀ row, (turn row).run (buildFragment environment enter) = step row)
    (rows : List (List Datum)) :
    (scriptRows turn rows).run (buildFragment environment enter) = renderRows step rows := by
  induction rows with
  | nil => rfl
  | cons row rest ih =>
    simp only [scriptRows, renderRows, Script.run_andThen, Script.run_pure, turns, ih]

omit enters in
theorem run_scriptFragment (arguments : List Datum) :
    (scriptFragment arguments).run (buildFragment environment enter) =
      renderFragment environment enter arguments := by
  unfold scriptFragment renderFragment
  cases fragmentIndex? arguments with
  | none => rfl
  | some index => cases arguments[1]?.any Datum.isTruthy <;> rfl

theorem run_scriptList (arguments : List Datum) :
    (scriptList body arguments).run (buildFragment environment enter) =
      renderList enter arguments := by
  unfold scriptList
  split
  · rw [Script.run_andThen, run_scriptRows (run_scriptClosure enters _ _ _)]
    rfl
  · next other => rw [renderList, Script.run_fail]; exact other

theorem run_scriptOutlet (arguments : List Datum) :
    (scriptOutlet environment body arguments).run (buildFragment environment enter) =
      renderOutlet environment enter arguments := by
  unfold scriptOutlet renderOutlet
  cases Dictionary.find? (Datum.shown arguments[0]?) environment.slots with
  | some nodes => rfl
  | none =>
    cases arguments[1]? with
    | none => rfl
    | some datum =>
      cases datum with
      | closure parameters inner scope => exact run_scriptClosure enters _ _ _ _
      | _ => rfl

theorem run_scriptBuiltin (name : String) (arguments : List Datum) :
    (scriptBuiltin environment body name arguments).run (buildFragment environment enter) =
      callBuiltin environment enter name arguments := by
  unfold scriptBuiltin
  split
  · exact Script.run_ofExcept _ _
  · rfl
  · rfl
  · rfl
  · exact run_scriptFragment arguments
  · rfl
  · exact run_scriptList enters arguments
  · exact run_scriptOutlet enters arguments
  · exact Script.run_ofExcept _ _
  · rw [callBuiltin, Script.run_fail] <;> assumption

theorem run_scriptDatum (name : String) (callee : Datum) (arguments : List Datum) :
    (scriptDatum body name callee arguments).run (buildFragment environment enter) =
      callDatum enter name callee arguments := by
  cases callee with
  | closure parameters inner scope => exact run_scriptClosure enters _ _ _ _
  | _ => rfl

theorem run_scriptName (scope : Scope) (name : String) (arguments : List Datum) :
    (scriptName environment body scope name arguments).run (buildFragment environment enter) =
      callName environment enter scope name arguments := by
  unfold scriptName callName
  cases scope.lookup name with
  | some bound => exact run_scriptDatum enters _ _ _
  | none =>
    simp only [apply_ite (Script.run (buildFragment environment enter)), run_scriptBuiltin enters,
      Script.run_fail, Script.run_ofExcept]

theorem run_scriptMember (target : Datum) (property : String) (arguments : List Datum) :
    (scriptMember body target property arguments).run (buildFragment environment enter) =
      callMember enter target property arguments := by
  unfold scriptMember callMember
  rw [Script.run_andThen, Script.run_ofExcept]
  refine bind_congr fun found => ?_
  cases found with
  | closure parameters inner scope => exact run_scriptClosure enters _ _ _ _
  | _ => exact Script.run_ofExcept _ _

end Answered

mutual

theorem run_script {environment : Environment} {enter : Entrance}
    {body : Scope → Expr → Script Datum} (enters : EntersScripts environment enter body)
    (scope : Scope) (source : Expr) :
    (script environment body scope source).run (buildFragment environment enter) =
      evaluate environment enter scope source := by
  match source with
  | .literal _ | .this | .name _ | .function _ _ => simp only [script, evaluate, Script.run_pure]
  | .member target property =>
    simp only [script, evaluate, Script.run_andThen, Script.run_ofExcept, run_script enters scope target]
  | .index target key =>
    simp only [script, evaluate, Script.run_andThen, Script.run_ofExcept,
      run_script enters scope target, run_script enters scope key]
  | .call callee arguments =>
    simp only [script, evaluate, Script.run_andThen, run_scriptAll enters scope arguments]
    refine bind_congr fun values => ?_
    split
    · exact run_scriptName enters _ _ _
    · next target property =>
      simp only [Script.run_andThen, run_script enters scope target, run_scriptMember enters]
    · simp only [Script.run_andThen, run_script enters scope callee, run_scriptDatum enters]
  | .unary operator operand =>
    simp only [script, evaluate, Script.run_andThen, Script.run_pure, run_script enters scope operand]
  | .binary operator left right =>
    simp only [script, evaluate, Script.run_andThen, run_script enters scope left]
    refine bind_congr fun value => ?_
    split
    · rfl
    · simp only [Script.run_andThen, Script.run_pure, run_script enters scope right]
  | .conditional test whenTrue whenFalse =>
    simp only [script, evaluate, Script.run_andThen, run_script enters scope test]
    refine bind_congr fun value => ?_
    split
    · exact run_script enters scope whenTrue
    · exact run_script enters scope whenFalse
  | .list items =>
    simp only [script, evaluate, Script.run_andThen, Script.run_pure, run_scriptAll enters scope items]
  | .record entries =>
    simp only [script, evaluate, Script.run_andThen, Script.run_pure,
      run_scriptEntries enters scope [] entries]
  | .listeners entries =>
    simp only [script, evaluate, Script.run_andThen, Script.run_pure,
      run_scriptListeners enters scope entries]

theorem run_scriptAll {environment : Environment} {enter : Entrance}
    {body : Scope → Expr → Script Datum} (enters : EntersScripts environment enter body)
    (scope : Scope) (items : List Expr) :
    (scriptAll environment body scope items).run (buildFragment environment enter) =
      evaluateAll environment enter scope items := by
  match items with
  | [] => simp only [scriptAll, evaluateAll, Script.run_pure]
  | item :: rest =>
    simp only [scriptAll, evaluateAll, Script.run_andThen, Script.run_pure,
      run_script enters scope item, run_scriptAll enters scope rest]

theorem run_scriptKey {environment : Environment} {enter : Entrance}
    {body : Scope → Expr → Script Datum} (enters : EntersScripts environment enter body)
    (scope : Scope) (key : Key) :
    (scriptKey environment body scope key).run (buildFragment environment enter) =
      evaluateKey environment enter scope key := by
  match key with
  | .fixed name => simp only [scriptKey, evaluateKey, Script.run_pure]
  | .computed expression =>
    simp only [scriptKey, evaluateKey, Script.run_andThen, Script.run_pure,
      run_script enters scope expression]

theorem run_scriptEntries {environment : Environment} {enter : Entrance}
    {body : Scope → Expr → Script Datum} (enters : EntersScripts environment enter body)
    (scope : Scope) (done : List (String × Datum)) (entries : List (Key × Expr)) :
    (scriptEntries environment body scope done entries).run (buildFragment environment enter) =
      evaluateEntries environment enter scope done entries := by
  match entries with
  | [] => simp only [scriptEntries, evaluateEntries, Script.run_pure]
  | (key, value) :: rest =>
    simp only [scriptEntries, evaluateEntries, Script.run_andThen, run_scriptKey enters scope key,
      run_script enters scope value]
    refine bind_congr fun name => bind_congr fun datum => ?_
    exact run_scriptEntries enters scope _ rest

theorem run_scriptListeners {environment : Environment} {enter : Entrance}
    {body : Scope → Expr → Script Datum} (enters : EntersScripts environment enter body)
    (scope : Scope) (entries : List (Key × String)) :
    (scriptListeners environment body scope entries).run (buildFragment environment enter) =
      evaluateListeners environment enter scope entries := by
  match entries with
  | [] => simp only [scriptListeners, evaluateListeners, Script.run_pure]
  | (key, source) :: rest =>
    simp only [scriptListeners, evaluateListeners, Script.run_andThen, Script.run_pure,
      run_scriptKey enters scope key, run_scriptListeners enters scope rest]

end

/-- However deep functions go and however fragments are entered, evaluation is
its script with the calls answered. -/
theorem run_scriptCalls (environment : Environment) (fragment : Expr → Eval Datum) (depth : Nat)
    (body : Scope → Expr → Eval Datum) (scope : Scope) (source : Expr) :
    (scriptCalls environment depth scope source).run (buildFragment environment ⟨body, fragment⟩) =
      evaluateCalls environment fragment depth scope source := by
  induction depth generalizing scope source with
  | zero =>
    have enters : EntersScripts environment ⟨fun _ _ => throw .tooDeep, fragment⟩
        (fun _ _ => .throw .tooDeep) := fun _ _ => rfl
    exact run_script enters scope source
  | succ depth ih =>
    have enters : EntersScripts environment ⟨evaluateCalls environment fragment depth, fragment⟩
        (scriptCalls environment depth) := fun scope source => (ih scope source).symm
    exact run_script enters scope source

end Templating.Evaluation
