import Templating.Evaluation.Builtin
import Templating.Evaluation.Method
/-!
# Evaluation of render source

Expressions are evaluated by recursion on themselves.  Only the bodies of
functions and the sources of fragments are entered from elsewhere: functions up
to a depth, and fragments inside fragments as often as there are fragments,
which is enough unless one contains itself.
-/
set_option autoImplicit false

namespace Templating.Evaluation

open Templating.Data Templating.Expression

def lookUp (environment : Environment) (scope : Scope) (name : String) : Datum :=
  match scope.lookup name with
  | some bound => bound
  | none => .plain ((environment.data.member? name).getD .undefined)

def applyUnary (operator : UnaryOperator) (operand : Datum) : Datum :=
  match operator with
  | .not => .ofBool !operand.isTruthy
  | .negate => .ofNumber (-operand.toValue.toNumber)
  | .plus => .ofNumber operand.toValue.toNumber
  | .typeOf => .ofString operand.typeOf
  | .void => .undefined

def decides (operator : BinaryOperator) (left : Datum) : Bool :=
  match operator with
  | .and => !left.isTruthy
  | .or => left.isTruthy
  | .coalesce => !left.isNullish
  | _ => false

def combine (operator : BinaryOperator) (left right : Datum) : Datum :=
  match operator with
  | .and | .or | .coalesce => right
  | _ => .plain (applyBinary operator left.toValue right.toValue)

def calleeName : Expr → String
  | .name name => name
  | .member _ property => property
  | _ => "expression"

def callDatum (enter : Entrance) (name : String) (callee : Datum) (arguments : List Datum) :
    Eval Datum :=
  match callee with
  | .closure parameters body scope => applyClosure enter parameters body scope arguments
  | _ => .fail (.notCallable name)

/-- Calls what a name stands for.  Bindings hide the functions of render source,
and data hides the global ones. -/
def callName (environment : Environment) (enter : Entrance) (scope : Scope) (name : String)
    (arguments : List Datum) : Eval Datum :=
  match scope.lookup name with
  | some bound => callDatum enter name bound arguments
  | none =>
    if Text.startsWith ['_'] name.toList then callBuiltin environment enter name arguments
    else if (environment.data.member? name).isSome then .fail (.notCallable name)
    else .ofExcept ((callGlobal name (arguments.map Datum.toValue)).map .plain)

/-- Calls a property: a function that is there, else a method of the data. -/
def callMember (enter : Entrance) (target : Datum) (property : String) (arguments : List Datum) :
    Eval Datum := do
  match ← Eval.ofExcept (target.member property) with
  | .closure parameters body scope => applyClosure enter parameters body scope arguments
  | _ =>
    .ofExcept ((callMethod target.toValue property (arguments.map Datum.toValue)).map .plain)

section

variable (environment : Environment) (enter : Entrance)

mutual

def evaluate (scope : Scope) : Expr → Eval Datum
  | .literal value => pure (.plain value)
  | .this => pure (.plain environment.data)
  | .name name => pure (lookUp environment scope name)
  | .member target property => do .ofExcept ((← evaluate scope target).member property)
  | .index target key => do
    let target ← evaluate scope target
    let key ← evaluate scope key
    .ofExcept (target.member key.propertyName)
  | .call callee arguments => do
    let arguments ← evaluateAll scope arguments
    match callee with
    | .name name => callName environment enter scope name arguments
    | .member target property =>
      callMember enter (← evaluate scope target) property arguments
    | other => callDatum enter (calleeName other) (← evaluate scope other) arguments
  | .unary operator operand => do pure (applyUnary operator (← evaluate scope operand))
  | .binary operator left right => do
    let left ← evaluate scope left
    if decides operator left then pure left
    else pure (combine operator left (← evaluate scope right))
  | .conditional test whenTrue whenFalse => do
    if (← evaluate scope test).isTruthy then evaluate scope whenTrue
    else evaluate scope whenFalse
  | .list items => do pure (.list (← evaluateAll scope items))
  | .record entries => do pure (.record (← evaluateEntries scope [] entries))
  | .listeners entries => do pure (.listeners (← evaluateListeners scope entries))
  | .function parameters body => pure (.closure parameters body scope)

def evaluateAll (scope : Scope) : List Expr → Eval (List Datum)
  | [] => pure []
  | item :: rest => do
    let datum ← evaluate scope item
    pure (datum :: (← evaluateAll scope rest))

def evaluateKey (scope : Scope) : Key → Eval String
  | .fixed name => pure name
  | .computed key => do pure (← evaluate scope key).propertyName

/-- Evaluates the entries of an object behind those that it has. -/
def evaluateEntries (scope : Scope) (done : List (String × Datum)) :
    List (Key × Expr) → Eval (List (String × Datum))
  | [] => pure done
  | (key, value) :: rest => do
    let name ← evaluateKey scope key
    let datum ← evaluate scope value
    evaluateEntries scope (setEntry name datum done) rest

def evaluateListeners (scope : Scope) : List (Key × String) → Eval (List (String × String))
  | [] => pure []
  | (key, source) :: rest => do
    let name ← evaluateKey scope key
    pure ((name, source) :: (← evaluateListeners scope rest))

end

end

/-- Evaluates with functions nested at most `depth` deep. -/
def evaluateCalls (environment : Environment) (fragment : Expr → Eval Datum) :
    Nat → Scope → Expr → Eval Datum
  | 0, scope, source =>
    evaluate environment ⟨fun _ _ => throw .tooDeep, fragment⟩ scope source
  | depth + 1, scope, source =>
    evaluate environment ⟨evaluateCalls environment fragment depth, fragment⟩ scope source

/-- Evaluates without bindings, with fragments nested at most `levels` deep and
functions in each of them at most `depth` deep. -/
def evaluateFragments (environment : Environment) (depth : Nat) : Nat → Expr → Eval Datum
  | 0, source => evaluateCalls environment (fun _ => throw .tooDeep) depth [] source
  | levels + 1, source =>
    evaluateCalls environment (evaluateFragments environment depth levels) depth [] source

def renderedNode : Datum → Except Fault Tree.Node
  | .node node => .ok node
  | .list [.node node] => .ok node
  | other => if other.isNullish then .ok (.comment "") else .error (.notANode other.kind)

def renderWithin (environment : Environment) (depth : Nat) (program : Expr) : Eval Tree.Node := do
  let result ← evaluateFragments environment depth environment.fragments.length program
  .ofExcept (renderedNode result)

end Templating.Evaluation
