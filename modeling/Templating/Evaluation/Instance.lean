import Templating.Evaluation.Functions
/-!
# Instances

Functions bound to data and to nodes for outlets.  An instance keeps the
fragments that it has rendered, whatever becomes of its data.
-/
set_option autoImplicit false

namespace Templating.Evaluation

open Templating.Data

structure Instance where
  functions : Functions
  data : Value
  slots : Dictionary (List Tree.Node)
  cache : FragmentCache

namespace Instance

def new (functions : Functions) (data : Value) : Instance := ⟨functions, data, [], []⟩

def withSlot (target : Instance) (name : String) (nodes : List Tree.Node) : Instance :=
  { target with slots := Dictionary.insert name nodes target.slots }

def setData (target : Instance) (data : Value) : Instance := { target with data }

def environment (target : Instance) : Environment :=
  ⟨target.data, target.functions.fragments.map SourceFunction.body, target.slots⟩

/-- Renders with functions nested at most `depth` deep. -/
def renderWithin (depth : Nat) (target : Instance) : Except Halt Tree.Node × Instance :=
  let (result, cache) :=
    Evaluation.renderWithin target.environment depth target.functions.render.body target.cache
  (result, { target with cache })

/-- How deep functions may be nested unless something else is asked for. -/
def standardDepth : Nat := 1000000

def render (target : Instance) : Except Halt Tree.Node × Instance :=
  target.renderWithin standardDepth

end Instance

end Templating.Evaluation
