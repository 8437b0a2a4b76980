import Templating.Command.Path
import Templating.Data.Dictionary
/-!
# Directories

The files below a directory with their content, by normal path.
-/
set_option autoImplicit false

namespace Templating.Command

open Templating.Text Templating.Data

structure Directory where
  files : Dictionary String

namespace Directory

def ofList (files : List (String × String)) : Directory :=
  ⟨Dictionary.ofPairs (files.map fun (path, content) => (Path.normalized path, content))⟩

def holdsFiles (directory : Directory) (place : List String) : Bool :=
  directory.files.any fun file => startsWith ((join "/" place).toList ++ ['/']) file.1.toList

/-- Takes a step, which starts from a directory and does not leave the top. -/
def enter? (directory : Directory) (place : List String) (name : String) : Option (List String) :=
  if place.isEmpty then if name == ".." then none else some (Path.step place name)
  else if directory.holdsFiles place then some (Path.step place name)
  else none

def read? (directory : Directory) (path : String) : Option String := do
  let place ← (Path.pieces path).foldlM directory.enter? []
  Dictionary.find? (join "/" place) directory.files

/-- There is a file on the way to the path or at its end. -/
def isBlocked (directory : Directory) (path : String) : Bool :=
  (Path.route [] (Path.pieces path)).any fun place =>
    Dictionary.contains (join "/" place) directory.files

/-- The directory with a file written; nothing where the path is a directory. -/
def write? (directory : Directory) (path content : String) : Option Directory :=
  if directory.holdsFiles (Path.place path) then none
  else some ⟨Dictionary.insert (Path.normalized path) content directory.files⟩

end Directory

end Templating.Command
