import Templating.Text.Search
/-!
# Leftmost search

What the search for a given text says about the text that is searched.
-/
set_option autoImplicit false

namespace Templating.Text

theorem dropLeading_eq_some_iff (pattern source rest : List Char) :
    dropLeading? pattern source = some rest ↔ source = pattern ++ rest := by
  induction pattern generalizing source with
  | nil => simp [dropLeading?]
  | cons p pattern ih =>
    cases source with
    | nil => simp [dropLeading?]
    | cons c source =>
      by_cases same : p = c
      · simp [dropLeading?, same, ih]
      · simp [dropLeading?, same, Ne.symm same]

theorem breakAt_eq_some {pattern source before after : List Char}
    (found : breakAt? pattern source = some (before, after)) :
    source = before ++ pattern ++ after := by
  induction source generalizing before after with
  | nil =>
    simp only [breakAt?, Option.map_eq_some_iff, Prod.mk.injEq] at found
    obtain ⟨rest, dropped, rfl, rfl⟩ := found
    simpa using (dropLeading_eq_some_iff pattern [] rest).mp dropped
  | cons c rest ih =>
    unfold breakAt? at found
    split at found
    · next dropped =>
      simp only [Option.some.injEq, Prod.mk.injEq] at found
      obtain ⟨rfl, rfl⟩ := found
      simpa using (dropLeading_eq_some_iff pattern (c :: rest) _).mp dropped
    · simp only [Option.map_eq_some_iff, Prod.mk.injEq] at found
      obtain ⟨⟨inner, behind⟩, cut, rfl, rfl⟩ := found
      simp [ih cut]

theorem contains_of_breakAt {pattern source before after : List Char} (nonempty : pattern ≠ [])
    (found : breakAt? pattern source = some (before, after)) : contains pattern before = false := by
  induction source generalizing before after with
  | nil =>
    simp only [breakAt?, Option.map_eq_some_iff, Prod.mk.injEq] at found
    obtain ⟨_, dropped, rfl, rfl⟩ := found
    have split := (dropLeading_eq_some_iff _ _ _).mp dropped
    exact absurd (List.append_eq_nil_iff.mp split.symm).1 nonempty
  | cons c rest ih =>
    have here : contains pattern [] = false := by
      cases pattern with
      | nil => exact absurd rfl nonempty
      | cons p pattern => rfl
    unfold breakAt? at found
    split at found
    · cases found
      exact here
    · next missing =>
      simp only [Option.map_eq_some_iff, Prod.mk.injEq] at found
      obtain ⟨⟨inner, behind⟩, cut, rfl, rfl⟩ := found
      have inside := ih cut
      have notHere : dropLeading? pattern (c :: inner) = none := by
        cases starts : dropLeading? pattern (c :: inner) with
        | none => rfl
        | some left =>
          have split := (dropLeading_eq_some_iff _ _ _).mp starts
          have whole : c :: rest = pattern ++ (left ++ pattern ++ behind) := by
            rw [breakAt_eq_some cut, ← List.cons_append, ← List.cons_append, split]
            simp only [List.append_assoc]
          rw [(dropLeading_eq_some_iff _ _ _).mpr whole] at missing
          cases missing
      simpa [contains, breakAt?, notHere] using inside

theorem breakAt_cons {pattern rest : List Char} {c : Char}
    (notHere : dropLeading? pattern (c :: rest) = none) :
    breakAt? pattern (c :: rest) = (breakAt? pattern rest).map fun found => (c :: found.1, found.2) := by
  rw [breakAt?, notHere]

theorem dropLeading_cons_ne {p c : Char} {pattern rest : List Char} (differs : p ≠ c) :
    dropLeading? (p :: pattern) (c :: rest) = none := by
  rw [dropLeading?, if_neg differs]

theorem contains_append (before pattern after : List Char) :
    contains pattern (before ++ pattern ++ after) = true := by
  unfold contains
  induction before with
  | nil =>
    have starts := (dropLeading_eq_some_iff pattern (pattern ++ after) after).mpr rfl
    rw [List.nil_append]
    cases whole : pattern ++ after with
    | nil =>
      rw [whole] at starts
      rw [breakAt?, starts]
      rfl
    | cons c rest =>
      rw [whole] at starts
      rw [breakAt?, starts]
      rfl
  | cons c before ih =>
    rw [List.cons_append, List.cons_append, breakAt?]
    split
    · rfl
    · rwa [Option.isSome_map]

/-- Text behind the first occurrence of the pattern is of no account for the search. -/
theorem breakAt_replaced {pattern source before after : List Char}
    (found : breakAt? pattern source = some (before, after)) (other : List Char) :
    breakAt? pattern (before ++ pattern ++ other) = some (before, other) := by
  induction source generalizing before after with
  | nil =>
    simp only [breakAt?, Option.map_eq_some_iff, Prod.mk.injEq] at found
    obtain ⟨rest, dropped, rfl, rfl⟩ := found
    obtain ⟨rfl, -⟩ := List.append_eq_nil_iff.mp ((dropLeading_eq_some_iff _ _ _).mp dropped).symm
    cases other <;> rfl
  | cons c rest ih =>
    cases here : dropLeading? pattern (c :: rest) with
    | some behind =>
      rw [breakAt?, here] at found
      cases found
      have again : dropLeading? pattern (pattern ++ other) = some other :=
        (dropLeading_eq_some_iff _ _ _).mpr rfl
      rw [List.nil_append]
      cases whole : pattern ++ other with
      | nil =>
        rw [whole] at again
        rw [breakAt?, again]
        rfl
      | cons d others =>
        rw [whole] at again
        rw [breakAt?, again]
    | none =>
      rw [breakAt_cons here, Option.map_eq_some_iff] at found
      obtain ⟨⟨inner, behind⟩, inside, same⟩ := found
      cases same
      -- A front of the new text that is the pattern would be a front of the old one.
      have missing : dropLeading? pattern (c :: inner ++ pattern ++ other) = none := by
        cases starts : dropLeading? pattern (c :: inner ++ pattern ++ other) with
        | none => rfl
        | some left =>
          have front : pattern <+: c :: inner ++ pattern := by
            have whole : pattern <+: c :: inner ++ pattern ++ other :=
              ⟨left, ((dropLeading_eq_some_iff _ _ _).mp starts).symm⟩
            refine List.prefix_of_prefix_length_le whole ⟨other, rfl⟩ ?_
            simp only [List.length_append]
            omega
          obtain ⟨more, begins⟩ := front
          have old : c :: rest = pattern ++ (more ++ behind) := by
            rw [breakAt_eq_some inside, ← List.append_assoc, begins]
            simp only [List.append_assoc, List.cons_append]
          rw [(dropLeading_eq_some_iff _ _ _).mpr old] at here
          cases here
      rw [List.cons_append, List.cons_append, breakAt_cons (by simpa using missing), ih inside]
      rfl

theorem contains_eq_false_iff {pattern source : List Char} :
    contains pattern source = false ↔ breakAt? pattern source = none := by
  rw [contains, Option.isSome_eq_false_iff, Option.isNone_iff_eq_none]

theorem spanUntil_fst {pattern : List Char} (nonempty : pattern ≠ []) (source : List Char) :
    (spanUntil pattern source).1 = ((breakAt? pattern source).map Prod.fst).getD source := by
  induction source with
  | nil =>
    cases pattern with
    | nil => exact absurd rfl nonempty
    | cons p pattern => rfl
  | cons c rest ih =>
    unfold spanUntil
    cases starts : dropLeading? pattern (c :: rest) with
    | some after =>
      rw [breakAt?, starts]
      rfl
    | none =>
      rw [breakAt_cons starts]
      simp only [Option.isSome_none, Bool.false_eq_true, if_false]
      rw [ih]
      cases breakAt? pattern rest <;> rfl

end Templating.Text
