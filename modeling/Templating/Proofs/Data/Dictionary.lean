import Mathlib.Data.List.Nodup
import Mathlib.Data.String.Basic
import Templating.Data.Dictionary
/-!
# Entries of dictionaries
-/
set_option autoImplicit false

namespace Templating.Data.Dictionary

variable {α : Type} {name : String} {value : α} {entries : Dictionary α}

theorem mem_insert {entry : String × α} (held : entry ∈ insert name value entries) :
    entry = (name, value) ∨ entry ∈ entries := by
  induction entries with
  | nil => exact .inl (List.mem_singleton.mp held)
  | cons first others ih =>
    obtain ⟨other, kept⟩ := first
    unfold insert at held
    split at held
    · rcases List.mem_cons.mp held with same | held
      · exact .inl same
      · exact .inr (List.mem_cons_of_mem _ held)
    · split at held
      · rcases List.mem_cons.mp held with same | held
        · exact .inl same
        · exact .inr held
      · rcases List.mem_cons.mp held with same | held
        · exact .inr (same ▸ List.mem_cons_self)
        · exact (ih held).imp_right (List.mem_cons_of_mem _)

theorem mem_insert_self (name : String) (value : α) (entries : Dictionary α) :
    (name, value) ∈ insert name value entries := by
  induction entries with
  | nil => exact List.mem_singleton_self _
  | cons first others ih =>
    unfold insert
    split
    · exact List.mem_cons_self
    · split
      · exact List.mem_cons_self
      · exact List.mem_cons_of_mem _ ih

theorem mem_insert_of_ne {entry : String × α} (held : entry ∈ entries) (other : entry.1 ≠ name) :
    entry ∈ insert name value entries := by
  induction entries with
  | nil => cases held
  | cons first others ih =>
    unfold insert
    split
    · next same =>
      rcases List.mem_cons.mp held with rfl | held
      · exact absurd same.symm other
      · exact List.mem_cons_of_mem _ held
    · split
      · exact List.mem_cons_of_mem _ held
      · rcases List.mem_cons.mp held with rfl | held
        · exact List.mem_cons_self
        · exact List.mem_cons_of_mem _ (ih held)

theorem mem_ofPairs {pairs : List (String × α)} (names : (pairs.map Prod.fst).Nodup)
    {pair : String × α} (held : pair ∈ pairs) : pair ∈ ofPairs pairs := by
  have kept : ∀ (added : List (String × α)) (base : Dictionary α) (entry : String × α),
      entry ∈ base → entry.1 ∉ added.map Prod.fst →
      entry ∈ added.foldl (fun entries pair => insert pair.1 pair.2 entries) base := by
    intro added
    induction added with
    | nil => exact fun _ _ inside _ => inside
    | cons first others ih =>
      intro base entry inside fresh
      rw [List.map_cons, List.mem_cons, not_or] at fresh
      exact ih _ entry (mem_insert_of_ne inside fresh.1) fresh.2
  unfold ofPairs
  generalize ([] : Dictionary α) = base
  induction pairs generalizing base with
  | nil => cases held
  | cons first others ih =>
    rw [List.map_cons, List.nodup_cons] at names
    rcases List.mem_cons.mp held with rfl | held
    · exact kept others _ _ (mem_insert_self _ _ _) names.1
    · exact ih names.2 held _

/-! ## Order -/

/-- The names are in ascending order, each once. -/
def Sorted (entries : Dictionary α) : Prop :=
  entries.Pairwise fun first second => first.1 < second.1

theorem Sorted.insert (sorted : entries.Sorted) (name : String) (value : α) :
    (insert name value entries).Sorted := by
  induction entries with
  | nil => exact List.pairwise_singleton _ _
  | cons first rest ih =>
    obtain ⟨other, held⟩ := first
    obtain ⟨least, sortedRest⟩ := List.pairwise_cons.mp sorted
    unfold Dictionary.insert
    split
    · next same =>
      exact List.pairwise_cons.mpr ⟨fun entry inside => same ▸ least entry inside, sortedRest⟩
    · next differs =>
      split
      · next before =>
        refine List.pairwise_cons.mpr ⟨fun entry inside => ?_, sorted⟩
        rcases List.mem_cons.mp inside with rfl | inside
        · exact before
        · exact before.trans (least entry inside)
      · next after =>
        have behind : other < name := lt_of_le_of_ne (not_lt.mp after) (Ne.symm differs)
        refine List.pairwise_cons.mpr ⟨fun entry inside => ?_, ih sortedRest⟩
        rcases mem_insert inside with rfl | inside
        · exact behind
        · exact least entry inside

theorem Sorted.merge {base : Dictionary α} (sorted : base.Sorted) (pairs : List (String × α)) :
    (merge base pairs).Sorted := by
  unfold Dictionary.merge
  induction pairs generalizing base with
  | nil => exact sorted
  | cons first rest ih => exact ih (sorted.insert first.1 first.2)

theorem sorted_ofPairs (pairs : List (String × α)) : (ofPairs pairs).Sorted :=
  (show Sorted ([] : Dictionary α) from List.Pairwise.nil).merge pairs

theorem mem_of_find {found : α} (held : find? name entries = some found) :
    (name, found) ∈ entries := by
  induction entries with
  | nil => cases held
  | cons first rest ih =>
    unfold find? at held
    split at held
    · next same =>
      cases held
      exact same ▸ List.mem_cons_self
    · exact List.mem_cons_of_mem _ (ih held)

theorem Sorted.ext {entries others : Dictionary α} (sorted : entries.Sorted)
    (sortedToo : others.Sorted) (same : ∀ name, find? name entries = find? name others) :
    entries = others := by
  induction entries generalizing others with
  | nil =>
    cases others with
    | nil => rfl
    | cons first rest =>
      have found := same first.1
      simp [find?] at found
  | cons first rest ih =>
    cases others with
    | nil =>
      have found := same first.1
      simp [find?] at found
    | cons other others =>
      obtain ⟨least, sortedRest⟩ := List.pairwise_cons.mp sorted
      obtain ⟨leastToo, sortedOthers⟩ := List.pairwise_cons.mp sortedToo
      have notAbove : ¬ first.1 < other.1 := fun above => by
        have found : find? first.1 (other :: others) = some first.2 := by
          rw [← same first.1]
          simp [find?]
        rcases List.mem_cons.mp (mem_of_find found) with equal | inside
        · exact absurd above (by simp [← equal])
        · exact absurd (above.trans (leastToo _ inside)) (lt_irrefl _)
      have notBelow : ¬ other.1 < first.1 := fun below => by
        have found : find? other.1 (first :: rest) = some other.2 := by
          rw [same other.1]
          simp [find?]
        rcases List.mem_cons.mp (mem_of_find found) with equal | inside
        · exact absurd below (by simp [← equal])
        · exact absurd (below.trans (least _ inside)) (lt_irrefl _)
      have names : first.1 = other.1 := le_antisymm (not_lt.mp notBelow) (not_lt.mp notAbove)
      have values : first.2 = other.2 := by
        have found := same first.1
        simpa [find?, names] using found
      have tails : rest = others := by
        refine ih sortedRest sortedOthers fun name => ?_
        by_cases here : name = first.1
        · have absent {tail : Dictionary α} (above : ∀ entry ∈ tail, first.1 < entry.1) :
              find? name tail = none := by
            by_contra present
            obtain ⟨found, held⟩ := Option.ne_none_iff_exists'.mp present
            exact absurd (above _ (mem_of_find held)) (by simp [here])
          rw [absent least, absent (names ▸ leastToo)]
        · have found := same name
          simpa [find?, here, names ▸ here] using found
      rw [tails, Prod.ext names values]

theorem find_merge (base : Dictionary α) (pairs : List (String × α)) :
    find? name (merge base pairs) = (pairs.reverse.lookup name).or (find? name base) := by
  unfold merge
  induction pairs generalizing base with
  | nil => rfl
  | cons first rest ih =>
    obtain ⟨other, held⟩ := first
    rw [List.foldl_cons, ih, find?_insert, List.reverse_cons, List.lookup_append, Option.or_assoc]
    by_cases same : name = other
    · simp [same]
    · have differs : (name == other) = false := beq_eq_false_iff_ne.mpr same
      simp [same, List.lookup_cons, differs]

theorem find_ofPairs (pairs : List (String × α)) :
    find? name (ofPairs pairs) = pairs.reverse.lookup name :=
  (find_merge [] pairs).trans Option.or_none

/-! ## Lists of pairs -/

theorem find_eq_lookup (entries : Dictionary α) : find? name entries = entries.lookup name := by
  induction entries with
  | nil => rfl
  | cons first rest ih =>
    obtain ⟨other, held⟩ := first
    by_cases same : name = other
    · simp [find?, same]
    · simp [find?, same, List.lookup_cons, beq_eq_false_iff_ne.mpr same, ih]

theorem lookup_map {β : Type} (change : α → β) (pairs : List (String × α)) :
    (pairs.map fun pair => (pair.1, change pair.2)).lookup name =
      (pairs.lookup name).map change := by
  induction pairs with
  | nil => rfl
  | cons first rest ih =>
    obtain ⟨other, held⟩ := first
    by_cases same : name = other
    · simp [same]
    · simp [List.lookup_cons, beq_eq_false_iff_ne.mpr same, ih]

theorem lookup_reverse {pairs : List (String × α)} (names : (pairs.map Prod.fst).Nodup) :
    pairs.reverse.lookup name = pairs.lookup name := by
  induction pairs with
  | nil => rfl
  | cons first rest ih =>
    obtain ⟨other, held⟩ := first
    rw [List.map_cons, List.nodup_cons] at names
    rw [List.reverse_cons, List.lookup_append, ih names.2, List.lookup_cons]
    by_cases same : name = other
    · have absent : rest.lookup other = none :=
        List.lookup_eq_none_iff.mpr fun pair given => bne_iff_ne.mpr fun equal =>
          names.1 (List.mem_map.mpr ⟨pair, given, equal.symm⟩)
      simp [absent, same]
    · simp [List.lookup_cons, beq_eq_false_iff_ne.mpr same]

theorem find_of_mem (sorted : entries.Sorted) {entry : String × α} (held : entry ∈ entries) :
    find? entry.1 entries = some entry.2 := by
  induction entries with
  | nil => cases held
  | cons first rest ih =>
    obtain ⟨least, sortedRest⟩ := List.pairwise_cons.mp sorted
    obtain ⟨other, kept⟩ := first
    rcases List.mem_cons.mp held with rfl | inside
    · simp [find?]
    · have differs : entry.1 ≠ other := (ne_of_lt (least entry inside)).symm
      simp only [find?, differs, if_false]
      exact ih sortedRest inside

theorem Sorted.names_nodup (sorted : entries.Sorted) : (entries.map Prod.fst).Nodup := by
  rw [List.nodup_iff_pairwise_ne, List.pairwise_map]
  exact sorted.imp fun below => ne_of_lt below

end Templating.Data.Dictionary
