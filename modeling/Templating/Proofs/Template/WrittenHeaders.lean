import Templating.Proofs.Template.LoopHeaders
import Templating.Proofs.Text.Trimming
/-!
# Headers that are written

A header is written with its variables in parentheses and commas between them.  It is read back as
it was written: no variable holds a word that separates, so that the first such word is the one
that was written, and every comma of a variable is inside brackets.
-/
set_option autoImplicit false

namespace Templating.Template

open Templating.Text

/-! ## Words between blanks -/

/-- The word stands in the text between blanks or the ends of the text. -/
def HasWord (word : String) (text : List Char) : Prop :=
  word.toList ∈ text.splitOnP isAsciiBlank

section Words

variable {word : String} {text : List Char} {c : Char}

theorem hasWord_of_between {blank blankBehind : Char} {before after : List Char}
    (solid : ∀ c ∈ word.toList, isAsciiBlank c = false) (isBlank : isAsciiBlank blank = true)
    (isBlankBehind : isAsciiBlank blankBehind = true) :
    HasWord word (before ++ blank :: word.toList ++ blankBehind :: after) := by
  rw [HasWord, List.splitOnP_append_cons _ _ isBlankBehind, List.splitOnP_append_cons _ _ isBlank,
    List.splitOnP_eq_singleton solid]
  simp

theorem HasWord.of_cons (held : HasWord word (c :: text)) (visible : isAsciiBlank c = false)
    (foreign : c ∉ word.toList) : HasWord word text := by
  rw [HasWord, List.splitOnP_cons_eq_if_modifyHead, if_neg (by simp [visible])] at held
  rw [HasWord]
  cases pieces : text.splitOnP isAsciiBlank with
  | nil => exact absurd pieces (List.splitOnP_ne_nil _ _)
  | cons first others =>
    rw [pieces] at held
    rcases List.mem_cons.mp held with same | later
    · exact absurd (same ▸ List.mem_cons_self) foreign
    · exact List.mem_cons_of_mem first later

theorem splitOnP_concat (visible : isAsciiBlank c = false) (text : List Char) :
    ∃ front last, text.splitOnP isAsciiBlank = front ++ [last] ∧
      (text ++ [c]).splitOnP isAsciiBlank = front ++ [last ++ [c]] := by
  induction text with
  | nil => exact ⟨[], [], rfl, List.splitOnP_eq_singleton (by simpa using visible)⟩
  | cons first rest ih =>
    obtain ⟨front, last, alone, joined⟩ := ih
    rw [List.cons_append, List.splitOnP_cons_eq_if_modifyHead, List.splitOnP_cons_eq_if_modifyHead,
      alone, joined]
    by_cases blank : isAsciiBlank first = true
    · exact ⟨[] :: front, last, by rw [if_pos blank, List.cons_append],
        by rw [if_pos blank, List.cons_append]⟩
    · simp only [if_neg blank]
      cases front with
      | nil => exact ⟨[], first :: last, rfl, rfl⟩
      | cons piece others => exact ⟨(first :: piece) :: others, last, rfl, rfl⟩

theorem HasWord.of_concat (held : HasWord word (text ++ [c])) (visible : isAsciiBlank c = false)
    (foreign : c ∉ word.toList) : HasWord word text := by
  obtain ⟨front, last, alone, joined⟩ := splitOnP_concat visible text
  rw [HasWord, joined] at held
  rw [HasWord, alone]
  rcases List.mem_append.mp held with earlier | ends
  · exact List.mem_append_left _ earlier
  · have inside : c ∈ word.toList :=
      List.mem_singleton.mp ends ▸ List.mem_append_right last List.mem_cons_self
    exact absurd inside foreign

end Words

/-! ## Headers -/

/-- A text that is read as one variable of a header. -/
structure IsVariable (name : String) : Prop where
  trimmed : trimmed name = name
  given : name ≠ ""
  /-- As many brackets are closed as are opened. -/
  balanced : nesting name.toList = 0
  unparted : IsUnparted 0 name.toList
  withoutIn : ¬ HasWord "in" name.toList
  withoutOf : ¬ HasWord "of" name.toList

/-- The text of a header, with `in` or `of` for `word`. -/
def Loop.written (word : String) (header : Loop) : String :=
  "(" ++ join ", " header.targets ++ ") " ++ word ++ " " ++ header.source

example : Loop.written "in" ⟨"items", "item", some "index", none⟩ = "(item, index) in items" := by
  decide

theorem toList_join_cons (name next : String) (others : List String) :
    (join ", " (name :: next :: others)).toList =
      name.toList ++ ',' :: ' ' :: (join ", " (next :: others)).toList := by
  rw [join, String.toList_append, String.toList_append, List.append_assoc]
  · rfl
  · simp

theorem not_hasWord_join {word : String} (foreign : ',' ∉ word.toList) (given : word ≠ "")
    {names : List String} (without : ∀ name ∈ names, ¬ HasWord word name.toList) :
    ¬ HasWord word (join ", " names).toList := by
  induction names with
  | nil => simpa [HasWord, join] using given
  | cons name others ih =>
    rw [List.forall_mem_cons] at without
    cases others with
    | nil => exact without.1
    | cons next others =>
      have split : (join ", " (name :: next :: others)).toList =
          (name.toList ++ [',']) ++ ' ' :: (join ", " (next :: others)).toList := by
        rw [toList_join_cons, List.append_assoc, List.singleton_append]
      intro held
      rw [HasWord, split, List.splitOnP_append_cons _ _ (by decide)] at held
      rcases List.mem_append.mp held with first | later
      · exact without.1 (HasWord.of_concat first (by decide) foreign)
      · exact ih without.2 later

/-! ## Pieces -/

theorem IsUnparted.uncons {depth : Int} {c : Char} {text : List Char}
    (unparted : IsUnparted depth (c :: text)) :
    ¬(c = ',' ∧ depth = 0) ∧ IsUnparted (depth + nesting [c]) text := by
  constructor
  · rintro ⟨rfl, rfl⟩
    exact unparted [] text rfl rfl
  · rintro before after rfl
    have inside := unparted (c :: before) after rfl
    simp only [nesting] at inside ⊢
    omega

theorem pieces_unparted {depth : Int} {text : List Char} (unparted : IsUnparted depth text) :
    Loop.pieces depth text = [text] := by
  induction text generalizing depth with
  | nil => rfl
  | cons c rest ih => exact pieces_cons unparted.uncons.1 (ih unparted.uncons.2)

theorem pieces_append {depth : Int} {part : List Char} (unparted : IsUnparted depth part)
    (closed : depth + nesting part = 0) (rest : List Char) :
    Loop.pieces depth (part ++ ',' :: rest) = part :: Loop.pieces 0 rest := by
  induction part generalizing depth with
  | nil =>
    have outside : depth = 0 := by simpa [nesting] using closed
    rw [List.nil_append, Loop.pieces, if_pos ⟨rfl, outside⟩, outside]
  | cons c part ih =>
    refine pieces_cons unparted.uncons.1 (ih unparted.uncons.2 ?_)
    simp only [nesting] at closed ⊢
    omega

/-- All commas of a text are inside brackets exactly if it is one piece. -/
theorem isUnparted_iff_pieces {depth : Int} {text : List Char} :
    IsUnparted depth text ↔ Loop.pieces depth text = [text] := by
  refine ⟨pieces_unparted, fun single => ?_⟩
  have parts := parts_pieces depth text
  rw [single] at parts
  generalize only : [text] = list at parts
  cases parts with
  | last unparted => exact unparted
  | more unparted closed behind =>
    obtain ⟨-, rfl⟩ := List.cons.inj only
    cases behind

instance (depth : Int) (text : List Char) : Decidable (IsUnparted depth text) :=
  decidable_of_iff (Loop.pieces depth text = [text]) isUnparted_iff_pieces.symm

instance (word : String) (text : List Char) : Decidable (HasWord word text) :=
  inferInstanceAs (Decidable (word.toList ∈ text.splitOnP isAsciiBlank))

instance (name : String) : Decidable (IsVariable name) :=
  decidable_of_iff
    (trimmed name = name ∧ name ≠ "" ∧ nesting name.toList = 0 ∧ IsUnparted 0 name.toList ∧
      ¬ HasWord "in" name.toList ∧ ¬ HasWord "of" name.toList)
    ⟨fun ⟨trimmed, given, balanced, unparted, withoutIn, withoutOf⟩ =>
      { trimmed, given, balanced, unparted, withoutIn, withoutOf },
    fun isVariable =>
      ⟨isVariable.trimmed, isVariable.given, isVariable.balanced, isVariable.unparted,
        isVariable.withoutIn, isVariable.withoutOf⟩⟩

theorem map_trim_pieces_space (text : List Char) :
    (Loop.pieces 0 (' ' :: text)).map trim = (Loop.pieces 0 text).map trim := by
  obtain ⟨piece, others, parted⟩ := pieces_eq_cons 0 text
  have blank : ∀ c ∈ [' '], isBlank c = true := List.forall_mem_singleton.mpr (by decide)
  have trims : trim (' ' :: piece) = trim piece := trim_blanks_append blank
  rw [parted, pieces_cons (by decide) parted, List.map_cons, List.map_cons, trims]

/-- Variables with commas between them are the pieces that are found. -/
theorem map_trim_pieces_join {names : List String} (given : names ≠ [])
    (all : ∀ name ∈ names, IsVariable name) :
    (Loop.pieces 0 (join ", " names).toList).map trim = names.map String.toList := by
  induction names with
  | nil => exact absurd rfl given
  | cons name others ih =>
    rw [List.forall_mem_cons] at all
    obtain ⟨own, behind⟩ := all
    have trims := trim_toList own.trimmed
    cases others with
    | nil => rw [join, pieces_unparted own.unparted, List.map_singleton, trims, List.map_singleton]
    | cons next others =>
      rw [toList_join_cons, pieces_append own.unparted (by simp [own.balanced]),
        List.map_cons, map_trim_pieces_space, ih (List.cons_ne_nil _ _) behind, trims,
        List.map_cons (l := next :: others)]

/-! ## The separator -/

theorem sides_append {left rest right : List Char}
    (first : ∀ before behind, left = before ++ behind → behind ≠ [] →
      Loop.behindSeparator? (behind ++ rest) = none)
    (found : Loop.behindSeparator? rest = some right) :
    Loop.sides? (left ++ rest) = some (left, right) := by
  induction left with
  | nil =>
    cases rest with
    | nil => cases found
    | cons c rest => rw [List.nil_append, Loop.sides?, found]
  | cons c left ih =>
    have none := first [] (c :: left) rfl (List.cons_ne_nil c left)
    rw [List.cons_append] at none
    have later : Loop.sides? (left ++ rest) = some (left, right) :=
      ih fun before behind split => first (c :: before) behind (by rw [split, List.cons_append])
    rw [List.cons_append, Loop.sides?, none, later, Option.map_some]

theorem behindSeparator_written {word source : String} (separates : word = "in" ∨ word = "of")
    (given : source ≠ "") :
    Loop.behindSeparator? (' ' :: word.toList ++ ' ' :: source.toList) =
      some (' ' :: source.toList) := by
  cases split : source.toList with
  | nil => exact absurd (String.toList_eq_nil_iff.mp split) given
  | cons c rest => rcases separates with rfl | rfl <;> rfl

theorem behind_parenthesis {chunk front rest behind : List Char} (foreign : ')' ∉ chunk)
    (same : front ++ ')' :: rest = chunk ++ behind) : ∃ more, front = chunk ++ more := by
  rcases List.append_eq_append_iff.mp same with ⟨more, longer, split⟩ | ⟨more, longer, -⟩
  · cases more with
    | nil => exact ⟨[], by rw [longer, List.append_nil, List.append_nil]⟩
    | cons c more =>
      obtain ⟨rfl, -⟩ := List.cons.inj split
      exact absurd (longer ▸ List.mem_append_right front List.mem_cons_self) foreign
  · exact ⟨more, longer⟩

theorem not_mem_separator {word : String} {blank blankBehind : Char}
    (separates : word = "in" ∨ word = "of") (isBlank : isAsciiBlank blank = true)
    (isBlankBehind : isAsciiBlank blankBehind = true) :
    ')' ∉ blank :: word.toList ++ [blankBehind] := by
  have visible : isAsciiBlank ')' = false := by decide
  have foreign : ')' ∉ word.toList := by rcases separates with rfl | rfl <;> decide
  intro held
  rcases List.mem_append.mp held with (_ | ⟨_, inWord⟩) | ends
  · rw [visible] at isBlank
    cases isBlank
  · exact foreign inWord
  · rw [List.mem_singleton.mp ends, isBlankBehind] at visible
    cases visible

theorem hasWord_of_behindSeparator {front rest right : List Char}
    (found : Loop.behindSeparator? (front ++ ')' :: rest) = some right) :
    ∃ word, (word = "in" ∨ word = "of") ∧ ∀ before, HasWord word (before ++ front) := by
  obtain ⟨blank, word, separates, isBlank, isBlankBehind, whole⟩ := behindSeparator_eq_some found
  cases right with
  | nil => cases isBlankBehind
  | cons blankBehind right =>
    replace isBlankBehind : isAsciiBlank blankBehind = true := by simpa using isBlankBehind
    have solid : ∀ c ∈ word.toList, isAsciiBlank c = false := by
      have shown : (word.toList.all fun c => !isAsciiBlank c) = true := by
        rcases separates with rfl | rfl <;> decide
      simpa using shown
    have ordered : front ++ ')' :: rest = (blank :: word.toList ++ [blankBehind]) ++ right := by
      simpa using whole
    obtain ⟨more, rfl⟩ :=
      behind_parenthesis (not_mem_separator separates isBlank isBlankBehind) ordered
    refine ⟨word, separates, fun before => ?_⟩
    have between : HasWord word (before ++ blank :: word.toList ++ blankBehind :: more) :=
      hasWord_of_between solid isBlank isBlankBehind
    simpa using between

/-- No separator stands in parentheses around variables, nor across the closing one. -/
theorem behindSeparator_parenthesized {inner before behind rest : List Char}
    (withoutIn : ¬ HasWord "in" inner) (withoutOf : ¬ HasWord "of" inner)
    (split : '(' :: inner ++ [')'] = before ++ behind) (given : behind ≠ []) :
    Loop.behindSeparator? (behind ++ rest) = none := by
  rw [Option.eq_none_iff_forall_ne_some]
  intro right found
  obtain ⟨front, last, rfl⟩ := (List.eq_nil_or_concat' behind).resolve_left given
  rw [← List.append_assoc] at split
  obtain ⟨inside, same⟩ := List.append_inj' split rfl
  obtain rfl : ')' = last := List.head_eq_of_cons_eq same
  rw [List.append_assoc, List.singleton_append] at found
  obtain ⟨word, separates, held⟩ := hasWord_of_behindSeparator found
  have heldInside : HasWord word ('(' :: inner) := inside ▸ held before
  rcases separates with rfl | rfl
  · exact withoutIn (heldInside.of_cons (by decide) (by decide))
  · exact withoutOf (heldInside.of_cons (by decide) (by decide))

/-! ## Reading -/

theorem trim_parenthesized (inner : List Char) :
    trim ('(' :: inner ++ [')']) = '(' :: inner ++ [')'] := by
  have visible : isBlank '(' = false ∧ isBlank ')' = false := by decide
  have trims := trim_around [] (inner ++ [')']) visible.1
  rwa [trimEnd_concat inner visible.2] at trims

theorem withoutParentheses_parenthesized (inner : List Char) :
    Loop.withoutParentheses ('(' :: inner ++ [')']) = inner := by
  simp [Loop.withoutParentheses, dropTrailing?, dropLeading?]

theorem named_toList {name : String} (given : name ≠ "") :
    Loop.named? (some name.toList) = some name := by
  simp [Loop.named?, Option.filter, given]

theorem named_targets {header : Loop} (given : ∀ name ∈ header.targets, name ≠ "")
    (inOrder : header.first = none → header.second = none) :
    Loop.named? (header.targets.map String.toList)[0]? = some header.item ∧
      Loop.named? (header.targets.map String.toList)[1]? = header.first ∧
      Loop.named? (header.targets.map String.toList)[2]? = header.second := by
  obtain ⟨source, item, first, second⟩ := header
  have isItem := named_toList (given item List.mem_cons_self)
  cases first with
  | none =>
    obtain rfl : second = none := inOrder rfl
    exact ⟨isItem, rfl, rfl⟩
  | some first =>
    have isFirst := named_toList (given first (by simp [Loop.targets]))
    cases second with
    | none => exact ⟨isItem, isFirst, rfl⟩
    | some second => exact ⟨isItem, isFirst, named_toList (given second (by simp [Loop.targets]))⟩

/-- The first separator of a written header is the one that was written. -/
theorem sides_written {word : String} {header : Loop} (separates : word = "in" ∨ word = "of")
    (areVariables : ∀ name ∈ header.targets, IsVariable name) (given : header.source ≠ "") :
    Loop.sides? (header.written word).toList =
      some ('(' :: (join ", " header.targets).toList ++ [')'], ' ' :: header.source.toList) := by
  have split : (header.written word).toList =
      ('(' :: (join ", " header.targets).toList ++ [')']) ++
        (' ' :: word.toList ++ ' ' :: header.source.toList) := by
    simp [Loop.written]
  have withoutIn : ¬ HasWord "in" (join ", " header.targets).toList :=
    not_hasWord_join (by decide) (by decide) fun name held => (areVariables name held).withoutIn
  have withoutOf : ¬ HasWord "of" (join ", " header.targets).toList :=
    not_hasWord_join (by decide) (by decide) fun name held => (areVariables name held).withoutOf
  rw [split]
  exact sides_append (fun _ _ => behindSeparator_parenthesized withoutIn withoutOf)
    (behindSeparator_written separates given)

/-- A header is read back as it is written, whatever its source holds. -/
theorem parse_written {word : String} {header : Loop} (separates : word = "in" ∨ word = "of")
    (areVariables : ∀ name ∈ header.targets, IsVariable name)
    (inOrder : header.first = none → header.second = none)
    (trims : trimmed header.source = header.source) (given : header.source ≠ "") :
    Loop.parse? (header.written word) = some header := by
  have blank : ∀ c ∈ [' '], isBlank c = true := List.forall_mem_singleton.mpr (by decide)
  have source : trim (' ' :: header.source.toList) = header.source.toList := by
    rw [← List.singleton_append, trim_blanks_append blank, trim_toList trims]
  have parted : (Loop.pieces 0 (join ", " header.targets).toList).map trim =
      header.targets.map String.toList :=
    map_trim_pieces_join (List.cons_ne_nil _ _) areVariables
  obtain ⟨item, first, second⟩ :=
    named_targets (fun name held => (areVariables name held).given) inOrder
  unfold Loop.parse?
  rw [sides_written separates areVariables given]
  simp only [trim_parenthesized, withoutParentheses_parenthesized, source, parted, item, first,
    second]
  simp [given]

/-- Patterns with commas inside, and a source that holds both words. -/
theorem patterns_readBack :
    (∀ name ∈ ["{ of: [a, in1] }", "[k, into]", "n"], IsVariable name) ∧
      Loop.parse? "({ of: [a, in1] }, [k, into], n) of all in [x of y, z]" =
        some ⟨"all in [x of y, z]", "{ of: [a, in1] }", some "[k, into]", some "n"⟩ := by
  have areVariables : ∀ name ∈ ["{ of: [a, in1] }", "[k, into]", "n"], IsVariable name := by decide
  refine ⟨areVariables, ?_⟩
  exact @parse_written "of" ⟨"all in [x of y, z]", "{ of: [a, in1] }", some "[k, into]", some "n"⟩
    (.inr rfl) areVariables (by decide) (by decide) (by decide)

end Templating.Template
