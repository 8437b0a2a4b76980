/-!
# Dictionaries

Pairs of a name and a value in the order of the names, each name once.  Names
are ordered by code point.
-/
set_option autoImplicit false

namespace Templating.Data

abbrev Dictionary (α : Type) := List (String × α)

namespace Dictionary

variable {α : Type}

def find? (name : String) : Dictionary α → Option α
  | [] => none
  | (other, value) :: rest => if name = other then some value else find? name rest

def contains (name : String) (entries : Dictionary α) : Bool := (find? name entries).isSome

/-- The dictionary with `value` under `name`, in place of what was there. -/
def insert (name : String) (value : α) : Dictionary α → Dictionary α
  | [] => [(name, value)]
  | (other, held) :: rest =>
    if name = other then (name, value) :: rest
    else if name < other then (name, value) :: (other, held) :: rest
    else (other, held) :: insert name value rest

/-- The last value given for a name counts. -/
def ofPairs (pairs : List (String × α)) : Dictionary α :=
  pairs.foldl (fun entries pair => insert pair.1 pair.2 entries) []

def merge (base added : Dictionary α) : Dictionary α :=
  added.foldl (fun entries pair => insert pair.1 pair.2 entries) base

def names (entries : Dictionary α) : List String := entries.map Prod.fst

theorem find?_insert (name other : String) (value : α) (entries : Dictionary α) :
    find? other (insert name value entries) =
      if other = name then some value else find? other entries := by
  induction entries with
  | nil => simp [insert, find?]
  | cons entry rest ih =>
    obtain ⟨held, kept⟩ := entry
    by_cases same : name = held
    · subst same
      by_cases asked : other = name <;> simp [insert, find?, asked]
    · by_cases before : name < held
      · by_cases asked : other = name <;> simp [insert, find?, same, before, asked]
      · by_cases asked : other = name
        · subst asked
          simp [insert, find?, same, before, ih]
        · simp [insert, find?, same, before, ih, asked]

end Dictionary

def sortedNames (names : List String) : List String :=
  Dictionary.names (Dictionary.ofPairs (names.map fun name => (name, ())))

end Templating.Data
