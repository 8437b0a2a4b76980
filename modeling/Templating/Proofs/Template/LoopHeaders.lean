import Templating.Template.Loop
/-!
# Where the variables of a loop stand

The text in front of `in` or `of` is parted at the commas outside brackets.  Each variable
has its place among the parts, and a place may be left empty.
-/
set_option autoImplicit false

namespace Templating.Template

open Templating.Text

/-- The brackets that the text opens, less those that it closes. -/
def nesting : List Char → Int
  | [] => 0
  | c :: rest =>
    (if c = '\x7b' ∨ c = '[' ∨ c = '(' then 1
      else if c = '\x7d' ∨ c = ']' ∨ c = ')' then -1
      else 0) + nesting rest

/-- Behind `depth` open brackets no comma of the text stands outside all brackets. -/
def IsUnparted (depth : Int) (text : List Char) : Prop :=
  ∀ before after, text = before ++ ',' :: after → depth + nesting before ≠ 0

/-- The text is the parts with commas between them: a comma parts it where no bracket is
open, and nowhere else. -/
inductive Parts : Int → List Char → List (List Char) → Prop where
  | last {depth : Int} {text : List Char} (unparted : IsUnparted depth text) :
    Parts depth text [text]
  | more {depth : Int} {part rest : List Char} {others : List (List Char)}
      (unparted : IsUnparted depth part) (closed : depth + nesting part = 0)
      (behind : Parts 0 rest others) :
    Parts depth (part ++ ',' :: rest) (part :: others)

theorem isUnparted_nil (depth : Int) : IsUnparted depth [] := by
  intro before after split
  simp at split

theorem IsUnparted.cons {depth : Int} {c : Char} {text : List Char}
    (unparted : IsUnparted (depth + nesting [c]) text) (goesOn : ¬(c = ',' ∧ depth = 0)) :
    IsUnparted depth (c :: text) := by
  intro before after split
  cases before with
  | nil =>
    obtain ⟨rfl, -⟩ := List.cons.inj split
    intro outside
    refine goesOn ⟨rfl, ?_⟩
    simpa [nesting] using outside
  | cons first before =>
    obtain ⟨rfl, rfl⟩ := List.cons.inj split
    have inside := unparted before after rfl
    simp only [nesting] at inside ⊢
    omega

theorem Parts.cons {depth : Int} {c : Char} {text part : List Char} {others : List (List Char)}
    (parts : Parts (depth + nesting [c]) text (part :: others)) (goesOn : ¬(c = ',' ∧ depth = 0)) :
    Parts depth (c :: text) ((c :: part) :: others) := by
  cases parts with
  | last unparted => exact .last (unparted.cons goesOn)
  | more unparted closed behind =>
    refine .more (unparted.cons goesOn) ?_ behind
    simp only [nesting] at closed ⊢
    omega

theorem pieces_cons {depth : Int} {c : Char} (goesOn : ¬(c = ',' ∧ depth = 0))
    {rest piece : List Char} {others : List (List Char)}
    (parted : Loop.pieces (depth + nesting [c]) rest = piece :: others) :
    Loop.pieces depth (c :: rest) = (c :: piece) :: others := by
  have inside : (if c = '\x7b' ∨ c = '[' ∨ c = '(' then depth + 1
      else if c = '\x7d' ∨ c = ']' ∨ c = ')' then depth - 1 else depth) = depth + nesting [c] := by
    simp only [nesting]
    split
    · omega
    · split <;> omega
  rw [Loop.pieces, if_neg goesOn]
  simp only [inside, parted]

theorem pieces_eq_cons (depth : Int) (text : List Char) :
    ∃ piece others, Loop.pieces depth text = piece :: others := by
  induction text generalizing depth with
  | nil => exact ⟨[], [], rfl⟩
  | cons c rest ih =>
    by_cases parted : c = ',' ∧ depth = 0
    · exact ⟨[], Loop.pieces depth rest, by rw [Loop.pieces, if_pos parted]⟩
    · obtain ⟨piece, others, behind⟩ := ih (depth + nesting [c])
      exact ⟨c :: piece, others, pieces_cons parted behind⟩

theorem parts_pieces (depth : Int) (text : List Char) :
    Parts depth text (Loop.pieces depth text) := by
  induction text generalizing depth with
  | nil => exact .last (isUnparted_nil depth)
  | cons c rest ih =>
    by_cases parted : c = ',' ∧ depth = 0
    · obtain ⟨rfl, rfl⟩ := parted
      rw [Loop.pieces, if_pos ⟨rfl, rfl⟩]
      exact .more (isUnparted_nil 0) rfl (ih 0)
    · obtain ⟨piece, others, pieces⟩ := pieces_eq_cons (depth + nesting [c]) rest
      have behind := ih (depth + nesting [c])
      rw [pieces] at behind
      rw [pieces_cons parted pieces]
      exact behind.cons parted

def givenName? (part : Option (List Char)) : Option String :=
  (part.map trim).bind fun name => if name = [] then none else some (String.ofList name)

/-- How a header stands in its text: the variables in front of a word between blanks, the
source behind it.  The item is the first part, and must be there. -/
inductive Loop.StandsIn (header : Loop) : List Char → Prop where
  | intro {left right : List Char} {blank : Char} {word : String} {parts : List (List Char)}
      (separates : word = "in" ∨ word = "of") (isBlank : isAsciiBlank blank = true)
      (isBlankBehind : right.head?.any isAsciiBlank = true)
      (parted : Parts 0 (Loop.withoutParentheses (trim left)) parts)
      (item : givenName? parts[0]? = some header.item) (first : header.first = givenName? parts[1]?)
      (second : header.second = givenName? parts[2]?) (source : header.source.toList = trim right) :
    StandsIn header (left ++ blank :: word.toList ++ right)

theorem behindSeparator_eq_some {text right : List Char} (found : Loop.behindSeparator? text = some right) :
    ∃ blank word, (word = "in" ∨ word = "of") ∧ isAsciiBlank blank = true ∧
      right.head?.any isAsciiBlank = true ∧ text = blank :: word.toList ++ right := by
  unfold Loop.behindSeparator? at found
  split at found
  · next before a b after c rest =>
    simp only [Option.ite_none_right_eq_some, Bool.and_eq_true, Bool.or_eq_true, beq_iff_eq,
      Option.some.injEq] at found
    obtain ⟨⟨⟨blank, blankBehind⟩, (⟨rfl, rfl⟩ | ⟨rfl, rfl⟩)⟩, rfl⟩ := found
    · exact ⟨before, "in", .inl rfl, blank, by simpa using blankBehind, rfl⟩
    · exact ⟨before, "of", .inr rfl, blank, by simpa using blankBehind, rfl⟩
  · cases found

theorem sides_eq_some {text left right : List Char} (found : Loop.sides? text = some (left, right)) :
    ∃ blank word, (word = "in" ∨ word = "of") ∧ isAsciiBlank blank = true ∧
      right.head?.any isAsciiBlank = true ∧ text = left ++ blank :: word.toList ++ right := by
  induction text generalizing left with
  | nil => cases found
  | cons c rest ih =>
    unfold Loop.sides? at found
    split at found
    · next behind =>
      cases found
      exact behindSeparator_eq_some behind
    · obtain ⟨⟨inner, behind⟩, inside, same⟩ := Option.map_eq_some_iff.mp found
      cases same
      obtain ⟨blank, word, separates, isBlank, isBlankBehind, rfl⟩ := ih inside
      exact ⟨blank, word, separates, isBlank, isBlankBehind, rfl⟩

theorem named_map_trim (pieces : List (List Char)) (place : Nat) :
    Loop.named? (pieces.map trim)[place]? = givenName? pieces[place]? := by
  rw [List.getElem?_map, Loop.named?, givenName?]
  cases pieces[place]? with
  | none => rfl
  | some piece =>
    by_cases empty : trim piece = []
    · simp [empty]
    · simp [Option.filter, empty]

theorem Loop.standsIn_of_parse {value : String} {header : Loop}
    (parsed : Loop.parse? value = some header) : header.StandsIn value.toList := by
  unfold Loop.parse? at parsed
  split at parsed
  · cases parsed
  · next left right sides =>
    simp only [named_map_trim] at parsed
    split at parsed
    · cases parsed
    · next item given =>
      split at parsed
      · cases parsed
      · cases parsed
        obtain ⟨blank, word, separates, isBlank, isBlankBehind, whole⟩ := sides_eq_some sides
        rw [whole]
        exact .intro separates isBlank isBlankBehind (parts_pieces 0 _) given rfl rfl
          String.toList_ofList

end Templating.Template
