import Templating.Proofs.Grammar.Literals
/-!
# Reading what is written in sequence

`Reads reader stops code result` says that the reader takes `code` for `result`
before every character at which it has to stop.  Items that are read so are read
in a sequence with commas between them and brackets around it.
-/
set_option autoImplicit false

namespace Templating.Expression.Grammar

open Templating.Text

variable {α : Type}

def Reads (reader : Reader α) (stops : Char → Bool) (code : List Char) (result : α) : Prop :=
  ∀ d tail, stops d = true → ∃ blanks, blanks.all isSeparatingBlank = true ∧
    reader (code ++ d :: tail) = some (result, blanks ++ d :: tail)

/-! ## Marks at the front -/

theorem skipBlanks_cons {c : Char} (visible : isSeparatingBlank c = false) (rest : List Char) :
    skipBlanks (c :: rest) = c :: rest := by
  simp [skipBlanks, visible]

theorem skipBlanks_blanks_append {blanks : List Char} (blank : blanks.all isSeparatingBlank = true)
    (source : List Char) : skipBlanks (blanks ++ source) = skipBlanks source := by
  rw [List.all_eq_true] at blank
  exact List.dropWhile_append_of_pos blank

theorem mark_skip {blanks : List Char} (blank : blanks.all isSeparatingBlank = true) (mark : String)
    (source : List Char) : mark? mark (blanks ++ source) = mark? mark source := by
  simp only [mark?, skipBlanks_blanks_append blank]

theorem mark_self (mark : String) (c : Char) (single : mark.toList = [c])
    (visible : isSeparatingBlank c = false) (rest : List Char) :
    mark? mark (c :: rest) = some rest := by
  simp [mark?, skipBlanks_cons visible, single, dropLeading?]

theorem mark_other {mark : String} {c d : Char} {others : List Char} (start : mark.toList = c :: others)
    (visible : isSeparatingBlank d = false) (differs : c ≠ d) (rest : List Char) :
    mark? mark (d :: rest) = none := by
  simp [mark?, skipBlanks_cons visible, start, dropLeading?, differs]

/-! ## Repetition -/

def Shortens (reader : Reader α) : Prop :=
  ∀ source result rest, reader source = some (result, rest) → rest.length < source.length

theorem commaThen_shortens {reader : Reader α} (shortens : Shortens reader) :
    Shortens (commaThen reader) := by
  intro source result rest found
  simp only [commaThen, Option.bind_eq_some_iff] at found
  obtain ⟨inside, marked, read⟩ := found
  exact Nat.lt_trans (shortens inside result rest read) (mark_length_lt (by decide) marked)

theorem many_eq {reader : Reader α} (shortens : Shortens reader) (source : List Char) :
    many reader source =
      match reader source with
      | none => ([], source)
      | some (first, rest) => (first :: (many reader rest).1, (many reader rest).2) := by
  have same : ∀ fuel moreFuel left, left.length ≤ fuel → left.length ≤ moreFuel →
      manyFrom reader fuel left = manyFrom reader moreFuel left := by
    intro fuel moreFuel left enough moreEnough
    have items : ∀ source other, samePairing.holds [] source other → source.length ≤ left.length →
        other.length ≤ left.length →
        Match (samePairing.holds []) source other (reader source) (reader other) := by
      intro source _ related _ _
      cases related
      exact match_self fun result rest read => shortens source result rest read
    have found := manyFrom_match reader reader items fuel moreFuel left left
      (samePairing_self [] left) enough moreEnough (Nat.le_refl _) (Nat.le_refl _)
    exact Prod.ext found.result found.related
  unfold many
  cases source with
  | nil =>
    cases read : reader [] with
    | none => rfl
    | some entry => exact absurd (shortens [] entry.1 entry.2 read) (by simp)
  | cons c others =>
    rw [List.length_cons, manyFrom]
    cases read : reader (c :: others) with
    | none => rfl
    | some entry =>
      have less := shortens (c :: others) entry.1 entry.2 read
      simp only [List.length_cons] at less
      simp only [same others.length entry.2.length entry.2 (by omega) (Nat.le_refl _)]

theorem many_none (reader : Reader α) {source : List Char} (refused : reader source = none) :
    many reader source = ([], source) := by
  unfold many
  cases source <;> simp [manyFrom, refused]

/-! ## Items with commas between them -/

def commaTail (codes : List (List Char)) : List Char := codes.flatMap fun code => ',' :: code

def commaList : List (List Char) → List Char
  | [] => []
  | code :: rest => code ++ commaTail rest

theorem ne_comma_of_endsNested {d : Char} (closer : endsNested d = true) : ',' ≠ d := by
  rintro rfl
  cases closer

theorem isSeparatingBlank_of_endsNested {d : Char} (closer : endsNested d = true) :
    isSeparatingBlank d = false :=
  isSeparatingBlank_of_ends (by simp [endsListener, closer])

theorem isSeparatingBlank_of_opening {c closer : Char} (opening : closerOf? c = some closer) :
    isSeparatingBlank c = false := by
  by_contra blank
  have plain := isPlain_of_isSeparatingBlank (eq_true_of_ne_false blank)
  rw [closerOf_of_plain plain] at opening
  cases opening

section Items

variable {reader : Reader α} {codes : List (List Char)} {results : List α} {d : Char}

theorem commaTail_start (codes : List (List Char)) (closer : endsNested d = true)
    (tail : List Char) :
    ∃ e more, endsListener e = true ∧ commaTail codes ++ d :: tail = e :: more := by
  cases codes with
  | nil => exact ⟨d, tail, by simp [endsListener, closer], rfl⟩
  | cons other codes => exact ⟨',', _, rfl, rfl⟩

theorem many_reads (shortens : Shortens reader)
    (items : List.Forall₂ (Reads reader endsListener) codes results) (closer : endsNested d = true)
    (tail : List Char) {blanks : List Char} (blank : blanks.all isSeparatingBlank = true) :
    ∃ left, left.all isSeparatingBlank = true ∧
      many (commaThen reader) (blanks ++ (commaTail codes ++ d :: tail)) =
        (results, left ++ d :: tail) := by
  induction items generalizing blanks with
  | nil =>
    refine ⟨blanks, blank, ?_⟩
    have refused : mark? "," (blanks ++ d :: tail) = none := by
      rw [mark_skip blank]
      exact mark_other rfl (isSeparatingBlank_of_endsNested closer) (ne_comma_of_endsNested closer) tail
    exact many_none _ (by simp [commaThen, commaTail, refused])
  | @cons code result codes results item items ih =>
    obtain ⟨e, more, ends, split⟩ := commaTail_start codes closer tail
    obtain ⟨left, leftBlank, read⟩ := item e more ends
    obtain ⟨final, finalBlank, others⟩ := ih leftBlank
    have source : commaTail (code :: codes) ++ d :: tail = ',' :: (code ++ e :: more) := by
      rw [← split]
      simp [commaTail]
    have first : commaThen reader (blanks ++ ',' :: (code ++ e :: more)) =
        some (result, left ++ e :: more) := by
      rw [commaThen, mark_skip blank, mark_self _ ',' rfl rfl, Option.bind_some, read]
    rw [split] at others
    refine ⟨final, finalBlank, ?_⟩
    rw [source, many_eq (commaThen_shortens shortens), first]
    simp only [others]

theorem separated_reads (shortens : Shortens reader) (refuses : ∀ tail, reader (d :: tail) = none)
    (items : List.Forall₂ (Reads reader endsListener) codes results) (closer : endsNested d = true)
    (tail : List Char) :
    ∃ left, left.all isSeparatingBlank = true ∧
      separated reader (commaList codes ++ d :: tail) = (results, left ++ d :: tail) := by
  cases items with
  | nil => exact ⟨[], rfl, by simp [commaList, separated, refuses]⟩
  | @cons code result codes results item items =>
    obtain ⟨e, more, ends, split⟩ := commaTail_start codes closer tail
    obtain ⟨left, leftBlank, read⟩ := item e more ends
    obtain ⟨final, finalBlank, others⟩ := many_reads shortens items closer tail leftBlank
    rw [split] at others
    refine ⟨final, finalBlank, ?_⟩
    rw [commaList, List.append_assoc, split, separated, read]
    simp only [others]

variable {opening closing : String} {opener : Char}

theorem enclosed_reads (pair : IsBracketPair opening closing opener d) (shortens : Shortens reader)
    (refuses : ∀ tail, reader (d :: tail) = none)
    (items : List.Forall₂ (Reads reader endsListener) codes results) (tail : List Char) :
    enclosed opening closing reader (opener :: (commaList codes ++ d :: tail)) =
      some (results, tail) := by
  obtain ⟨left, blank, inside⟩ := separated_reads shortens refuses items pair.ends tail
  have opened := mark_self _ _ pair.openingText (isSeparatingBlank_of_opening pair.belongs)
    (commaList codes ++ d :: tail)
  have closed : mark? closing (left ++ d :: tail) = some tail := by
    rw [mark_skip blank]
    exact mark_self _ _ pair.closingText (isSeparatingBlank_of_endsNested pair.ends) tail
  simp only [enclosed, opened, inside, closed, Option.map_some]

theorem enclosedWithComma_reads (pair : IsBracketPair opening closing opener d)
    (shortens : Shortens reader) (refuses : ∀ tail, reader (d :: tail) = none)
    (items : List.Forall₂ (Reads reader endsListener) codes results) (tail : List Char) :
    enclosedWithComma opening closing reader (opener :: (commaList codes ++ d :: tail)) =
      some (results, tail) := by
  obtain ⟨left, blank, inside⟩ := separated_reads shortens refuses items pair.ends tail
  have opened := mark_self _ _ pair.openingText (isSeparatingBlank_of_opening pair.belongs)
    (commaList codes ++ d :: tail)
  have visible := isSeparatingBlank_of_endsNested pair.ends
  have noComma : mark? "," (left ++ d :: tail) = none := by
    rw [mark_skip blank]
    exact mark_other rfl visible (ne_comma_of_endsNested pair.ends) tail
  have closed : mark? closing (left ++ d :: tail) = some tail := by
    rw [mark_skip blank]
    exact mark_self _ _ pair.closingText visible tail
  simp only [enclosedWithComma, opened, inside, noComma, Option.getD_none, closed, Option.map_some]

end Items

end Templating.Expression.Grammar
