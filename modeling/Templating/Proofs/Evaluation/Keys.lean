import Mathlib.Data.List.Nodup
import Templating.Proofs.Evaluation.Marks
import Templating.Proofs.Number.Numerals
/-!
# Keys of static elements

The elements of a fragment are marked with keys that tell the fragment and the
way to the element.  Such keys are different for different ways, so that keys
can only meet where one fragment is shown twice.
-/
set_option autoImplicit false

namespace Templating.Tree.Node

def staticKey? : Node → Option (Option String)
  | .element _ props _ => if props.isStatic then some props.key else none
  | _ => none

def staticKeys (nodes : List Node) : List (Option String) := nodes.filterMap staticKey?

mutual

/-- In the node and below it, no two children of one element are marked as
static with the same key. -/
def SiblingsApart : Node → Prop
  | .element _ _ children => (staticKeys children).Nodup ∧ AllApart children
  | .text _ => True
  | .comment _ => True

def AllApart : List Node → Prop
  | [] => True
  | node :: rest => node.SiblingsApart ∧ AllApart rest

end

mutual

def decideSiblingsApart : (node : Node) → Decidable node.SiblingsApart
  | .element _ _ children =>
    have := decideAllApart children
    inferInstanceAs (Decidable ((staticKeys children).Nodup ∧ AllApart children))
  | .text _ => .isTrue trivial
  | .comment _ => .isTrue trivial

def decideAllApart : (nodes : List Node) → Decidable (AllApart nodes)
  | [] => .isTrue trivial
  | node :: rest =>
    have := node.decideSiblingsApart
    have := decideAllApart rest
    inferInstanceAs (Decidable (node.SiblingsApart ∧ AllApart rest))

end

instance : DecidablePred SiblingsApart := decideSiblingsApart

@[simp] theorem staticKeys_nil : staticKeys [] = [] := rfl

@[simp] theorem staticKeys_append (nodes others : List Node) :
    staticKeys (nodes ++ others) = staticKeys nodes ++ staticKeys others := List.filterMap_append

theorem allApart_iff {nodes : List Node} : AllApart nodes ↔ ∀ node ∈ nodes, node.SiblingsApart := by
  induction nodes with
  | nil => simp [AllApart]
  | cons node rest ih => simp [AllApart, ih]

theorem AllApart.append {nodes others : List Node} (first : AllApart nodes)
    (second : AllApart others) : AllApart (nodes ++ others) :=
  allApart_iff.mpr (List.forall_mem_append.mpr ⟨allApart_iff.mp first, allApart_iff.mp second⟩)

end Templating.Tree.Node

namespace Templating.Evaluation

open Templating.Text Templating.Data Templating.Tree.Node

/-! ## Keys of fragments -/

/-- The key for a way that starts with the number of a fragment. -/
def fragmentKey (way : List Nat) : String :=
  way.foldl (fun key position => key ++ "_" ++ toString position) "__static_"

theorem fragmentKey_single (index : Nat) : fragmentKey [index] = "__static__" ++ toString index :=
  congrArg (· ++ toString index) (by decide : "__static_" ++ "_" = "__static__")

theorem fragmentKey_concat (way : List Nat) (position : Nat) :
    fragmentKey (way ++ [position]) = fragmentKey way ++ "_" ++ toString position := by
  rw [fragmentKey, List.foldl_append]
  rfl

/-- The numbers of a way, each behind an underscore. -/
def wayDigits (way : List Nat) : List Char :=
  way.flatMap fun position => '_' :: Nat.toDigits 10 position

theorem fragmentKey_toList (way : List Nat) :
    (fragmentKey way).toList = "__static_".toList ++ wayDigits way := by
  induction way using List.reverseRecOn with
  | nil => rfl
  | append_singleton way position ih =>
    simp [fragmentKey_concat, ih, wayDigits]

theorem takeWhile_digits (position : Nat) (way : List Nat) :
    (Nat.toDigits 10 position ++ wayDigits way).takeWhile isAsciiDigit = Nat.toDigits 10 position := by
  rw [List.takeWhile_append_of_pos (toDigits_isAsciiDigit position)]
  cases way with
  | nil => exact List.append_nil _
  | cons next rest => exact List.append_nil _

theorem wayDigits_injective : Function.Injective wayDigits := by
  intro way
  induction way with
  | nil =>
    intro other same
    cases other with
    | nil => rfl
    | cons position rest => cases same
  | cons position rest ih =>
    intro other same
    cases other with
    | nil => cases same
    | cons next others =>
      have digits : Nat.toDigits 10 position ++ wayDigits rest =
          Nat.toDigits 10 next ++ wayDigits others := (List.cons.inj same).2
      have first : Nat.toDigits 10 position = Nat.toDigits 10 next := by
        rw [← takeWhile_digits position rest, digits, takeWhile_digits]
      rw [first, List.append_cancel_left_eq] at digits
      have read := congrArg (fun digits => Nat.ofDigitChars 10 digits 0) first
      simp only [Nat.ofDigitChars_ten_toDigits] at read
      rw [read, ih digits]

theorem fragmentKey_injective : Function.Injective fragmentKey := by
  intro way other same
  have texts := congrArg String.toList same
  rw [fragmentKey_toList, fragmentKey_toList, List.append_cancel_left_eq] at texts
  exact wayDigits_injective texts

/-! ## Marking -/

mutual

def markedWays : Datum → List (List Nat)
  | .node (.element _ _ _) => [[]]
  | .list items => markedWaysFrom 0 items
  | _ => []

def markedWaysFrom (position : Nat) : List Datum → List (List Nat)
  | [] => []
  | item :: rest => (markedWays item).map (position :: ·) ++ markedWaysFrom (position + 1) rest

end

theorem le_of_mem_markedWaysFrom {position : Nat} {items : List Datum} {way : List Nat}
    (held : way ∈ markedWaysFrom position items) : ∃ first rest, way = first :: rest ∧ position ≤ first := by
  induction items generalizing position with
  | nil => cases held
  | cons item rest ih =>
    rw [markedWaysFrom, List.mem_append] at held
    rcases held with here | later
    · obtain ⟨below, -, rfl⟩ := List.mem_map.mp here
      exact ⟨position, below, rfl, Nat.le_refl _⟩
    · obtain ⟨first, others, rfl, beyond⟩ := ih later
      exact ⟨first, others, rfl, Nat.le_of_succ_le beyond⟩

mutual

theorem markedWays_nodup (datum : Datum) : (markedWays datum).Nodup := by
  match datum with
  | .node (.element _ _ _) => exact List.nodup_singleton []
  | .list items => exact markedWaysFrom_nodup 0 items
  | .node (.text _) | .node (.comment _) | .plain _ | .record _ | .listeners _ | .closure _ _ _ =>
    exact List.nodup_nil

theorem markedWaysFrom_nodup (position : Nat) (items : List Datum) :
    (markedWaysFrom position items).Nodup := by
  match items with
  | [] => exact List.nodup_nil
  | item :: rest =>
    rw [markedWaysFrom]
    refine List.Nodup.append ?_ (markedWaysFrom_nodup (position + 1) rest) ?_
    · exact (markedWays_nodup item).map fun _ _ same => (List.cons.inj same).2
    · intro way here later
      obtain ⟨below, -, rfl⟩ := List.mem_map.mp here
      obtain ⟨first, others, same, beyond⟩ := le_of_mem_markedWaysFrom later
      obtain ⟨rfl, -⟩ := List.cons.inj same
      exact absurd beyond (Nat.not_succ_le_self position)

end

/-! Plain values stand for texts only. -/

mutual

theorem nodesOfValue_text (value : Value) : ∀ node ∈ nodesOfValue value, ∃ content, node = .text content := by
  match value with
  | .list items => exact nodesOfValues_text items
  | .string content => exact fun node held => ⟨content, List.mem_singleton.mp held⟩
  | .number x => exact fun node held => ⟨Number.display x, List.mem_singleton.mp held⟩
  | .undefined | .null | .boolean _ | .record _ => exact fun _ held => by cases held

theorem nodesOfValues_text (values : List Value) :
    ∀ node ∈ nodesOfValues values, ∃ content, node = .text content := by
  match values with
  | [] => exact fun _ held => by cases held
  | value :: rest =>
    exact List.forall_mem_append.mpr ⟨nodesOfValue_text value, nodesOfValues_text rest⟩

end

theorem staticKeys_value (value : Value) : staticKeys (nodesOfValue value) = [] := by
  rw [staticKeys, List.filterMap_eq_nil_iff]
  intro node held
  obtain ⟨content, rfl⟩ := nodesOfValue_text value node held
  rfl

theorem allApart_value (value : Value) : AllApart (nodesOfValue value) := by
  rw [allApart_iff]
  intro node held
  obtain ⟨content, rfl⟩ := nodesOfValue_text value node held
  trivial

mutual

/-- What is marked has the keys of the ways that lead to it. -/
theorem markStatic_keys (way : List Nat) (datum : Datum) :
    staticKeys (nodesOf (markStatic (fragmentKey way) datum)) =
      (markedWays datum).map fun below => some (fragmentKey (way ++ below)) := by
  match datum with
  | .node (.element _ _ _) =>
    rw [markedWays, List.map_singleton, List.append_nil]
    rfl
  | .list items => exact markAllStatic_keys way 0 items
  | .plain value => exact staticKeys_value value
  | .node (.text _) | .node (.comment _) | .record _ | .listeners _ | .closure _ _ _ => rfl

theorem markAllStatic_keys (way : List Nat) (position : Nat) (items : List Datum) :
    staticKeys (nodesOfAll (markAllStatic (fragmentKey way) position items)) =
      (markedWaysFrom position items).map fun below => some (fragmentKey (way ++ below)) := by
  match items with
  | [] => rfl
  | item :: rest =>
    have first := markStatic_keys (way ++ [position]) item
    have others := markAllStatic_keys way (position + 1) rest
    rw [fragmentKey_concat] at first
    rw [markAllStatic, nodesOfAll, staticKeys_append, first, others, markedWaysFrom, List.map_append,
      List.map_map]
    simp

end

mutual

theorem markStatic_apart (key : String) (datum : Datum) (apart : AllApart (nodesOf datum)) :
    AllApart (nodesOf (markStatic key datum)) := by
  match datum with
  | .node (.element _ _ _) => exact apart
  | .list items => exact markAllStatic_apart key 0 items apart
  | .node (.text _) | .node (.comment _) | .plain _ | .record _ | .listeners _ | .closure _ _ _ =>
    exact apart

theorem markAllStatic_apart (key : String) (position : Nat) (items : List Datum)
    (apart : AllApart (nodesOfAll items)) : AllApart (nodesOfAll (markAllStatic key position items)) := by
  match items with
  | [] => trivial
  | item :: rest =>
    rw [nodesOfAll, allApart_iff, List.forall_mem_append] at apart
    exact (markStatic_apart _ item (allApart_iff.mpr apart.1)).append
      (markAllStatic_apart key (position + 1) rest (allApart_iff.mpr apart.2))

end

/-! ## What a datum shows -/

/-- The keys are different, and of fragments with numbers in the range. -/
structure AreOwned (first last : Nat) (keys : List (Option String)) : Prop where
  nodup : keys.Nodup
  within : ∀ key ∈ keys, ∃ index rest, first ≤ index ∧ index < last ∧ key = some (fragmentKey (index :: rest))

section AreOwned

variable {first middle last : Nat} {keys others : List (Option String)}

theorem AreOwned.nil (first last : Nat) : AreOwned first last [] :=
  ⟨List.nodup_nil, fun _ held => by cases held⟩

theorem AreOwned.mono (owned : AreOwned first last keys) {lower upper : Nat} (below : lower ≤ first)
    (above : last ≤ upper) : AreOwned lower upper keys where
  nodup := owned.nodup
  within := by
    intro key held
    obtain ⟨index, rest, atLeast, less, same⟩ := owned.within key held
    exact ⟨index, rest, below.trans atLeast, less.trans_le above, same⟩

theorem AreOwned.disjoint (one : AreOwned first middle keys) {lower : Nat}
    (two : AreOwned lower last others) (ordered : middle ≤ lower) : keys.Disjoint others := by
  intro key held heldToo
  obtain ⟨index, rest, -, less, same⟩ := one.within key held
  obtain ⟨other, more, atLeast, -, sameToo⟩ := two.within key heldToo
  have ways := fragmentKey_injective (Option.some.inj (same.symm.trans sameToo))
  obtain ⟨rfl, -⟩ := List.cons.inj ways
  exact absurd less (Nat.not_lt.mpr (ordered.trans atLeast))

theorem AreOwned.append (one : AreOwned first middle keys) (two : AreOwned middle last others)
    (ordered : first ≤ middle) (further : middle ≤ last) : AreOwned first last (keys ++ others) where
  nodup := one.nodup.append two.nodup (one.disjoint two (Nat.le_refl _))
  within := List.forall_mem_append.mpr
    ⟨(one.mono (Nat.le_refl _) further).within, (two.mono ordered (Nat.le_refl _)).within⟩

end AreOwned

/-- The nodes of the datum have apart siblings below them, and own keys of
fragments in the range; where it is `quiet`, they have none. -/
structure ShowsOwn (quiet : Prop) (first last : Nat) (datum : Datum) : Prop where
  apart : AllApart (nodesOf datum)
  owned : AreOwned first last (staticKeys (nodesOf datum))
  none : quiet → staticKeys (nodesOf datum) = []

theorem ofDatum_nodes {index : Nat} {datum : Datum} {kept : Fragment}
    (made : Fragment.ofDatum index datum = .ok kept) :
    nodesOf kept.toDatum = nodesOf (markStatic (fragmentKey [index]) datum) ∨
      nodesOf kept.toDatum = [.comment ""] := by
  rw [Fragment.ofDatum, ← fragmentKey_single] at made
  generalize markStatic (fragmentKey [index]) datum = stamped at made ⊢
  split at made
  · cases made
    exact .inl rfl
  · next items =>
    cases made
    exact .inl (nodesOfAll_map (nodesOfAll items))
  · split at made <;> cases made
    exact .inr rfl

theorem ofDatum_owned {index : Nat} {datum : Datum} {kept : Fragment}
    (made : Fragment.ofDatum index datum = .ok kept) :
    AreOwned index (index + 1) (staticKeys (nodesOf kept.toDatum)) := by
  rcases ofDatum_nodes made with same | same
  · rw [same, markStatic_keys]
    constructor
    · refine (markedWays_nodup datum).map fun way other same => ?_
      exact List.append_cancel_left (fragmentKey_injective (Option.some.inj same))
    · intro key held
      obtain ⟨below, -, rfl⟩ := List.mem_map.mp held
      exact ⟨index, below, Nat.le_refl _, Nat.lt_succ_self _, rfl⟩
  · rw [same]
    exact .nil _ _

theorem showsOwn_fragment {index : Nat} {datum : Datum} (apart : AllApart (nodesOf datum))
    {kept : Fragment} (made : Fragment.ofDatum index datum = .ok kept) :
    ShowsOwn False index (index + 1) kept.toDatum where
  apart := by
    rcases ofDatum_nodes made with same | same
    · rw [same]
      exact markStatic_apart (fragmentKey [index]) datum apart
    · rw [same]
      exact ⟨trivial, trivial⟩
  owned := ofDatum_owned made
  none := False.elim

end Templating.Evaluation
