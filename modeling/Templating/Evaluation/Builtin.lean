import Templating.Evaluation.Fragment
/-!
# Functions of render source

Render source builds its tree with functions whose names start with an
underscore.  Two of them call functions that they are given, and one renders
fragments; how these are entered is a parameter here.
-/
set_option autoImplicit false

namespace Templating.Evaluation

open Templating.Text Templating.Data Templating.Expression

structure Environment where
  data : Value
  fragments : List Expr
  slots : Dictionary (List Tree.Node)

/-- How evaluation goes on inside functions and fragments. -/
structure Entrance where
  body : Scope → Expr → Eval Datum
  fragment : Expr → Eval Datum

/-- Calls a function.  Its bindings hide those around it, and the last of two
bindings of one name counts. -/
def applyClosure (enter : Entrance) (parameters : List Pattern) (body : Expr) (scope : Scope)
    (arguments : List Datum) : Eval Datum :=
  enter.body ((bindParameters parameters arguments).reverse ++ scope) body

/-! ## Fragments -/

/-- The index of a fragment; a number is cut to its whole part. -/
def fragmentIndex? : List Datum → Option Nat
  | .plain (.number x) :: _ => if 0 ≤ x then some (Number.wholePart x) else none
  | _ => none

def buildFragment (environment : Environment) (enter : Entrance) (index : Nat) : Eval Fragment :=
  match environment.fragments[index]? with
  | none => .fail (.fragmentNotFound index)
  | some source => do .ofExcept (Fragment.ofDatum index (← enter.fragment source))

def keptFragment (environment : Environment) (enter : Entrance) (index : Nat) : Eval Fragment := do
  match (← get).lookup index with
  | some kept => pure kept
  | none =>
    let built ← buildFragment environment enter index
    modify fun cache => (index, built) :: cache
    pure built

/-- Renders a fragment.  Inside a loop it is built anew and not kept. -/
def renderFragment (environment : Environment) (enter : Entrance) (arguments : List Datum) :
    Eval Datum :=
  match fragmentIndex? arguments with
  | none => .fail (.illegalArguments "_m" "a fragment index")
  | some index =>
    if arguments[1]?.any Datum.isTruthy then do
      pure (← buildFragment environment enter index).toDatum
    else do pure (← keptFragment environment enter index).toDatum

/-! ## Lists and outlets -/

/-- The arguments for each turn of a loop: the item and its position, with the
name between them where there is one. -/
def rowsOf : Datum → List (List Datum)
  | .list items => items.zipIdx.map fun (item, position) => [item, .ofCount position]
  | .record entries =>
    entries.zipIdx.map fun ((name, item), position) => [item, .ofString name, .ofCount position]
  | .plain (.list items) =>
    items.zipIdx.map fun (item, position) => [.plain item, .ofCount position]
  | .plain (.record fields) =>
    fields.zipIdx.map fun ((name, item), position) =>
      [.plain item, .ofString name, .ofCount position]
  | .plain (.number x) =>
    (List.range (if 0 < x then Number.wholePart x else 0)).map fun position =>
      [.ofCount (position + 1), .ofCount position]
  | .plain (.string content) =>
    content.toList.zipIdx.map fun (c, position) =>
      [.ofString (String.singleton c), .ofCount position]
  | _ => []

def renderRows (turn : List Datum → Eval Datum) : List (List Datum) → Eval (List Datum)
  | [] => pure []
  | row :: rest => do
    let item ← turn row
    pure (item :: (← renderRows turn rest))

def renderList (enter : Entrance) : List Datum → Eval Datum
  | source :: .closure parameters body scope :: _ => do
    pure (.list (← renderRows (applyClosure enter parameters body scope) (rowsOf source)))
  | _ => .fail (.illegalArguments "_l" "a render function as second argument")

def renderOutlet (environment : Environment) (enter : Entrance) (arguments : List Datum) :
    Eval Datum :=
  match Dictionary.find? (Datum.shown arguments[0]?) environment.slots with
  | some nodes => pure (.list (nodes.map .node))
  | none =>
    match (arguments[1]? : Option Datum) with
    | some (.closure parameters body scope) => applyClosure enter parameters body scope []
    | _ => pure .undefined

/-! ## All functions -/

def onceKey (id key : String) : String :=
  if key == "" then "__once__" ++ id else "__once__" ++ id ++ "_" ++ key

def callBuiltin (environment : Environment) (enter : Entrance) (name : String)
    (arguments : List Datum) : Eval Datum :=
  match name with
  | "_c" => .ofExcept (createElement arguments)
  | "_v" => pure (.node (.text (Datum.shown arguments[0]?)))
  | "_s" => pure (.ofString (Datum.shown arguments[0]?))
  | "_e" => pure (.node (.comment (Datum.shown arguments[0]?)))
  | "_m" => renderFragment environment enter arguments
  | "_o" =>
    pure (markStatic (onceKey (Datum.shown arguments[1]?) (Datum.shown arguments[2]?))
      (arguments[0]?.getD .undefined))
  | "_l" => renderList enter arguments
  | "_t" => renderOutlet environment enter arguments
  | "_b" => .ofExcept (spreadObject arguments)
  | _ => .fail (.notCallable name)

end Templating.Evaluation
