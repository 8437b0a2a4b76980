import Templating.Text.Search
/-!
# Paths

Paths are relative, with slashes between their steps.
-/
set_option autoImplicit false

namespace Templating.Command.Path

open Templating.Text

def pieces (path : String) : List String := (splitAt '/' path.toList).map String.ofList

/-- One step on the way; an empty step and `.` stay where they are. -/
def step (place : List String) (name : String) : List String :=
  if name == "" || name == "." then place
  else if name == ".." then place.dropLast
  else place ++ [name]

def place (path : String) : List String := (pieces path).foldl step []

/-- All places on the way from `start`, the last of them where the path leads. -/
def route (start : List String) : List String → List (List String)
  | [] => [start]
  | name :: rest => start :: route (step start name) rest

def normalized (path : String) : String := join "/" (place path)

/-- The path of `name` in a directory; the empty path is where one stands. -/
def child (directory name : String) : String :=
  if directory == "" || endsWith ['/'] directory.toList then directory ++ name
  else directory ++ "/" ++ name

/-- The name at the end of a path without what its last dot begins.  A dot at
the front begins nothing. -/
def stem (path : String) : String :=
  let name := ((place path).getLast?).getD "template"
  match cutAt? '.' name.toList.reverse with
  | some (_, front) => if front.isEmpty then name else String.ofList front.reverse
  | none => name

end Templating.Command.Path
