import Templating.Evaluation.Functions
/-!
# Compilers

A compiler keeps the functions that it has made, by template and by the
settings that decide them, up to a limit.  An overlay with code of its own goes
past what is kept.
-/
set_option autoImplicit false

namespace Templating.Evaluation

open Templating.Template

/-- What decides the functions of a template, as far as it is no code. -/
structure FunctionKey where
  delimiters : Delimiters
  whitespace : Whitespace
  keepsComments : Bool
  optimizes : Bool
  reportsSpans : Bool
  template : String
deriving DecidableEq, Repr

def FunctionKey.of (settings : Settings) (template : String) : FunctionKey :=
  { delimiters := settings.delimiters, whitespace := settings.whitespace
    keepsComments := settings.keepsComments, optimizes := settings.optimizes
    reportsSpans := settings.reportsSpans, template }

/-- Functions that may be shared.  Two handles of one compiler are the same
object when they have the same number. -/
structure Handle where
  number : Nat
  functions : Functions

structure Compiler where
  settings : Settings
  kept : List (FunctionKey × Handle)
  /-- How many handles there have been. -/
  made : Nat

namespace Compiler

def new (settings : Settings) : Compiler := ⟨settings, [], 0⟩

def keptLimit : Nat := 256

def find? (key : FunctionKey) (kept : List (FunctionKey × Handle)) : Option Handle :=
  (kept.find? fun entry => entry.1 = key).map Prod.snd

/-- Keeps one more.  When the limit is reached all others are dropped first. -/
def keep (key : FunctionKey) (handle : Handle) (kept : List (FunctionKey × Handle)) :
    List (FunctionKey × Handle) :=
  if keptLimit ≤ kept.length then [(key, handle)] else (key, handle) :: kept

def make (compiler : Compiler) (key : Option FunctionKey) (settings : Settings)
    (template : String) : Except SourceFault Handle × Compiler :=
  match Functions.ofTemplate settings template with
  | .error fault => (.error fault, compiler)
  | .ok functions =>
    let handle : Handle := ⟨compiler.made, functions⟩
    let kept :=
      match key with
      | some key => keep key handle compiler.kept
      | none => compiler.kept
    (.ok handle, { compiler with kept, made := compiler.made + 1 })

def functions (compiler : Compiler) (overlay : Overlay) (template : String) :
    Except SourceFault Handle × Compiler :=
  let settings := compiler.settings.overlaid overlay
  if overlay.isPlain then
    let key := FunctionKey.of settings template
    match find? key compiler.kept with
    | some handle => (.ok handle, compiler)
    | none => compiler.make (some key) settings template
  else compiler.make none settings template

end Compiler

end Templating.Evaluation
