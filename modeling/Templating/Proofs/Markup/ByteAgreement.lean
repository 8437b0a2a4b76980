import Templating.Proofs.Markup.ByteScan
/-!
# Bytes and characters

Where a cursor stands in a source, the scanner on bytes reads at its offset what is
scanned on characters there.  A comment is the one construct that the bytes read in
another way: its closing mark is searched from its first character on.

Each reader is compared at a cursor, and the source is read by induction on what is
left.
-/
set_option autoImplicit false

namespace Templating.Markup

open Templating.Text

namespace ByteScan

/-! ## Cursors and indices -/

/-- The cursor stands in the source: what is left is what the source has behind its
offset. -/
def IsIn (source : List Char) (cursor : Cursor) : Prop :=
  ∃ before, source = before ++ cursor.rest ∧ cursor.offset = byteLength before

section

variable {source : List Char} {cursor after : Cursor}

theorem IsIn.passes {passed : List Char} (isIn : IsIn source cursor)
    (passes : cursor.Passes passed after) : IsIn source after := by
  obtain ⟨before, same, offset⟩ := isIn
  refine ⟨before ++ passed, ?_, ?_⟩
  · rw [same, passes.rest, List.append_assoc]
  · rw [passes.offset, offset, byteLength_append]

theorem IsIn.bytesFrom (isIn : IsIn source cursor) (front behind : List Char)
    (split : encoded cursor.rest = front ++ behind) :
    bytesFrom source (cursor.offset + front.length) = behind := by
  obtain ⟨before, same, offset⟩ := isIn
  unfold ByteScan.bytesFrom
  rw [same, encoded_append, split, offset, ← encoded_length, ← List.append_assoc,
    ← List.length_append, List.drop_left]

theorem IsIn.bytes (isIn : IsIn source cursor) :
    ByteScan.bytesFrom source cursor.offset = encoded cursor.rest :=
  isIn.bytesFrom [] _ rfl

theorem IsIn.length (isIn : IsIn source cursor) :
    byteLength source = cursor.offset + byteLength cursor.rest := by
  obtain ⟨before, same, offset⟩ := isIn
  rw [same, byteLength_append, offset]

theorem IsIn.text {passed : List Char} (isIn : IsIn source cursor)
    (passes : cursor.Passes passed after) :
    text? source cursor.offset after.offset = some (String.ofList passed) := by
  obtain ⟨before, same, offset⟩ := isIn
  unfold text?
  rw [slice_eq_some_iff.mpr ⟨before, after.rest, ?_, offset, ?_⟩]
  · rfl
  · rw [same, passes.rest, List.append_assoc]
  · rw [passes.offset, offset, byteLength_append]

theorem passes_rest (cursor : Cursor) :
    cursor.Passes cursor.rest ⟨[], cursor.offset + byteLength cursor.rest⟩ :=
  ⟨(List.append_nil _).symm, rfl⟩

theorem IsIn.textToEnd (isIn : IsIn source cursor) :
    text? source cursor.offset (byteLength source) = some (String.ofList cursor.rest) := by
  rw [isIn.length]
  exact isIn.text (passes_rest cursor)

theorem IsIn.rest (isIn : IsIn source cursor) :
    rest? source cursor.offset = some cursor.rest := by
  obtain ⟨before, same, offset⟩ := isIn
  unfold rest?
  refine slice_eq_some_iff.mpr ⟨before, [], ?_, offset, ?_⟩
  · rw [same, List.append_nil]
  · rw [same]

theorem IsIn.skip {onBytes onChars : Char → Bool} (isIn : IsIn source cursor)
    (agrees : Agrees onBytes onChars) :
    skip source onBytes cursor.offset = (cursor.skipWhile onChars).offset := by
  unfold ByteScan.skip
  rw [isIn.bytes, takeWhile_encoded agrees, encoded_length]
  rfl

theorem IsIn.byte_none (isIn : IsIn source cursor) (finished : cursor.rest = []) :
    byte? source cursor.offset = none := by
  unfold byte?
  rw [isIn.bytes, finished]
  rfl

theorem IsIn.byte_some {c : Char} {rest : List Char} (isIn : IsIn source cursor)
    (more : cursor.rest = c :: rest) :
    ∃ byte, byte? source cursor.offset = some byte ∧
      ∀ mark, ¬ IsWide mark → (byte = mark ↔ c = mark) := by
  obtain ⟨byte, others, same, marks⟩ := head_encoded c rest
  refine ⟨byte, ?_, marks⟩
  unfold byte?
  rw [isIn.bytes, more, same]
  rfl

theorem IsIn.byte_eq_some_iff {mark : Char} (isIn : IsIn source cursor) (narrow : ¬ IsWide mark) :
    byte? source cursor.offset = some mark ↔ cursor.rest.head? = some mark := by
  cases more : cursor.rest with
  | nil =>
    rw [isIn.byte_none more]
    exact Iff.rfl
  | cons c rest =>
    obtain ⟨byte, same, marks⟩ := isIn.byte_some more
    rw [same, List.head?_cons, Option.some.injEq, Option.some.injEq]
    exact marks mark narrow

/-- Behind a narrow character the next byte begins the next character. -/
theorem next_of_narrow {c : Char} {rest : List Char} (narrow : ¬ IsWide c)
    (more : cursor.rest = c :: rest) : cursor.next = ⟨rest, cursor.offset + 1⟩ := by
  unfold Cursor.next Cursor.advance
  rw [more, List.take_succ_cons, List.take_zero, List.drop_succ_cons, List.drop_zero, byteLength,
    utf8Size_of_narrow narrow]
  rfl

theorem IsIn.past (isIn : IsIn source cursor) (narrow : ∀ c ∈ cursor.rest.head?, ¬ IsWide c) :
    past source cursor.offset = cursor.next.offset := by
  unfold ByteScan.past
  rw [isIn.length]
  cases more : cursor.rest with
  | nil =>
    unfold Cursor.next Cursor.advance
    rw [more]
    exact if_neg (Nat.lt_irrefl _)
  | cons c rest =>
    have some := byteLength_pos (List.cons_ne_nil c rest)
    rw [next_of_narrow (narrow c (by rw [more]; exact rfl)) more, if_pos (by omega)]

theorem IsIn.atEnd_iff (isIn : IsIn source cursor) :
    byteLength source ≤ cursor.offset ↔ cursor.rest = [] := by
  rw [isIn.length]
  constructor
  · intro full
    by_contra nonempty
    have some := byteLength_pos nonempty
    omega
  · rintro finished
    rw [finished]
    exact Nat.le_refl _

theorem head_dropWhile_ne {mark : Char} (rest : List Char) :
    ∀ c ∈ (rest.dropWhile fun d => decide (d ≠ mark)).head?, c = mark := by
  intro c held
  have fails := List.head?_dropWhile_not (fun d => decide (d ≠ mark)) rest
  rw [Option.mem_def.mp held] at fails
  simpa using fails

/-! ## Attributes -/

theorem drop_length_takeWhile (accepts : Char → Bool) (rest : List Char) :
    rest.drop (rest.takeWhile accepts).length = rest.dropWhile accepts := by
  have split : rest.takeWhile accepts ++ rest.dropWhile accepts = rest :=
    List.takeWhile_append_dropWhile
  calc rest.drop (rest.takeWhile accepts).length
      = (rest.takeWhile accepts ++ rest.dropWhile accepts).drop (rest.takeWhile accepts).length := by
        rw [split]
    _ = rest.dropWhile accepts := List.drop_left

theorem attributeValue_quoted {c : Char} {rest : List Char} (more : cursor.rest = c :: rest)
    (quote : c = '\x22' ∨ c = '\x27') :
    attributeValue cursor = (some (String.ofList (rest.takeWhile fun d => decide (d ≠ c))),
      (cursor.next.skipWhile fun d => decide (d ≠ c)).next) := by
  unfold attributeValue
  rw [more]
  simp only [if_pos quote, drop_length_takeWhile, Cursor.next, Cursor.skipWhile, Cursor.advance, more,
    List.take_succ_cons, List.take_zero, List.drop_succ_cons, List.drop_zero, byteLength_append,
    List.cons_append, byteLength, Nat.add_zero, Nat.add_assoc]

theorem attributeValue_plain {c : Char} {rest : List Char} (more : cursor.rest = c :: rest)
    (noQuote : ¬ (c = '\x22' ∨ c = '\x27')) :
    attributeValue cursor = if (cursor.rest.takeWhile fun d => !endsPlainValue d).isEmpty
      then (none, cursor)
      else (some (String.ofList (cursor.rest.takeWhile fun d => !endsPlainValue d)),
        cursor.skipWhile fun d => !endsPlainValue d) := by
  unfold attributeValue
  rw [more]
  simp only [if_neg noQuote, drop_length_takeWhile, Cursor.skipWhile, more]

theorem readValue_eq (isIn : IsIn source cursor) :
    readValue? source cursor.offset =
      some ((attributeValue cursor).1, (attributeValue cursor).2.offset) := by
  unfold readValue?
  cases more : cursor.rest with
  | nil =>
    rw [isIn.byte_none more]
    unfold attributeValue
    rw [more]
  | cons c rest =>
    obtain ⟨byte, same, marks⟩ := isIn.byte_some more
    rw [same]
    simp only [marks '\x22' (by decide), marks '\x27' (by decide)]
    split
    · next quote =>
      have narrow : ¬ IsWide c := by rcases quote with rfl | rfl <;> decide
      obtain rfl : byte = c := (marks c narrow).mpr rfl
      have inner := isIn.passes cursor.next_passes
      have passes := Cursor.skipWhile_passes (fun d => decide (d ≠ byte)) cursor.next
      have inside : cursor.next.rest = rest := by rw [next_of_narrow narrow more]
      have skipped := inner.skip (agrees_ne narrow)
      have cut := inner.text passes
      have stop := (inner.passes passes).past fun d held => by
        rw [head_dropWhile_ne _ d held]
        exact narrow
      rw [attributeValue_quoted more quote]
      rw [inside] at cut
      rw [show cursor.offset + 1 = cursor.next.offset by rw [next_of_narrow narrow more], skipped, cut,
        Option.map_some, stop]
    · next noQuote =>
      have passes := Cursor.skipWhile_passes (fun d => !endsPlainValue d) cursor
      have offset := passes.offset
      rw [attributeValue_plain more noQuote, isIn.skip agrees_plainValue, isIn.text passes]
      generalize (cursor.rest.takeWhile fun d => !endsPlainValue d) = value at offset ⊢
      cases value with
      | nil =>
        rw [byteLength, Nat.add_zero] at offset
        rw [offset, if_neg (Nat.lt_irrefl _)]
        rfl
      | cons d value =>
        have some := byteLength_pos (List.cons_ne_nil d value)
        rw [if_pos (by omega)]
        rfl

theorem readAttribute_eq (isIn : IsIn source cursor) :
    readAttribute? source cursor.offset =
      some ((scanAttribute? cursor).elim (none, cursor.offset) fun found =>
        (some found.1, found.2.offset)) := by
  unfold readAttribute? scanAttribute?
  rw [isIn.bytes, attributeName_encoded, encoded_length]
  have split := attributeName_append 0 cursor.rest
  generalize attributeName 0 cursor.rest = named at split ⊢
  obtain ⟨name, behind⟩ := named
  simp only at split ⊢
  cases name with
  | nil =>
    rw [byteLength, Nat.add_zero, if_pos rfl]
    rfl
  | cons c name =>
    have named := Cursor.advance_passes split.symm
    have behindName := isIn.passes named
    have cut := isIn.text named
    have longer := byteLength_pos (List.cons_ne_nil c name)
    have start : (cursor.advance (c :: name) behind).offset = cursor.offset + byteLength (c :: name) := rfl
    generalize cursor.advance (c :: name) behind = place at behindName cut start ⊢
    have blanks : skip source isBlank place.offset = place.skipBlanks.offset :=
      behindName.skip agrees_blank
    have ahead : IsIn source place.skipBlanks :=
      behindName.passes (Cursor.skipWhile_passes isTagBlank place)
    rw [← start, if_neg (by omega), cut, Option.bind_some, blanks]
    simp only [ahead.byte_eq_some_iff (show ¬ IsWide '=' by decide), List.isEmpty_cons, Bool.false_eq_true,
      if_false]
    split
    · next equals =>
      obtain ⟨rest, more⟩ := List.head?_eq_some_iff.mp equals
      have assigned := ahead.passes place.skipBlanks.next_passes
      have valued : IsIn source place.skipBlanks.next.skipBlanks :=
        assigned.passes (Cursor.skipWhile_passes isTagBlank _)
      have further : skip source isBlank (place.skipBlanks.offset + 1) =
          place.skipBlanks.next.skipBlanks.offset := by
        rw [show place.skipBlanks.offset + 1 = place.skipBlanks.next.offset by
          rw [next_of_narrow (by decide) more]]
        exact assigned.skip agrees_blank
      rw [further, readValue_eq valued]
      rfl
    · rfl

theorem narrow_of_scanAttribute {c : Char} {rest : List Char} (none : scanAttribute? cursor = none)
    (more : cursor.rest = c :: rest) : ¬ IsWide c := by
  intro wide
  have named : (attributeName 0 cursor.rest).1.isEmpty = false := by
    rw [more, attributeName]
    simp only [isAttributeNameChar_of_wide wide, or_true, if_true]
    rfl
  unfold scanAttribute? at none
  simp only [named, Bool.false_eq_true, if_false] at none
  by_cases equals : (cursor.advance (attributeName 0 cursor.rest).1
      (attributeName 0 cursor.rest).2).skipBlanks.rest.head? = some '='
  · rw [if_pos equals] at none
    cases none
  · rw [if_neg equals] at none
    cases none

theorem scanAttributes_slash (fuel : Nat) {rest : List Char} (more : cursor.skipBlanks.rest = '/' :: rest) :
    scanAttributes (fuel + 1) cursor =
      if rest.head? = some '>' then some ([], true, cursor.skipBlanks.next.next)
      else scanAttributes fuel cursor.skipBlanks.next := by
  rw [scanAttributes]
  simp only [more]
  split
  · next given => cases given
  · next given => exact absurd (List.cons.inj given).1 (by decide)
  · next given =>
    obtain ⟨-, rfl⟩ := List.cons.inj given
    rfl
  · next differs given =>
    obtain ⟨-, rfl⟩ := List.cons.inj given
    have goesOn : rest.head? ≠ some '>' := by
      intro ends
      obtain ⟨tail, rfl⟩ := List.head?_eq_some_iff.mp ends
      exact differs tail rfl
    rw [if_neg goesOn]
  · next other => exact absurd rfl (other rest)

theorem scanAttributes_item (fuel : Nat) {c : Char} {rest : List Char}
    (more : cursor.skipBlanks.rest = c :: rest) (goesOn : c ≠ '>') (noSlash : c ≠ '/') :
    scanAttributes (fuel + 1) cursor =
      match scanAttribute? cursor.skipBlanks with
      | none => scanAttributes fuel cursor.skipBlanks.next
      | some (found, behind) => (scanAttributes fuel behind).map fun others =>
          (found :: others.1, others.2.1, others.2.2) := by
  rw [scanAttributes]
  simp only [more]
  split
  · next given => cases given
  · next given => exact absurd (List.cons.inj given).1 goesOn
  · next given => exact absurd (List.cons.inj given).1 noSlash
  · next given => exact absurd (List.cons.inj given).1 noSlash
  · rfl

/-- Each round passes a character, so that any fuel for more rounds than there are
characters left is enough on both sides. -/
theorem readAttributes_eq (fuel others : Nat) (isIn : IsIn source cursor)
    (enough : cursor.rest.length < fuel) (enoughToo : cursor.rest.length < others) :
    readAttributes? source fuel cursor.offset =
      some ((scanAttributes others cursor).map fun found =>
        (found.1, found.2.1, found.2.2.offset)) := by
  induction fuel generalizing others cursor with
  | zero => omega
  | succ fuel ih =>
    obtain ⟨others, rfl⟩ := Nat.exists_eq_add_one_of_ne_zero (Nat.ne_of_gt (Nat.zero_lt_of_lt enoughToo))
    have blanks : skip source isBlank cursor.offset = cursor.skipBlanks.offset :=
      isIn.skip agrees_blank
    have passes : cursor.Passes _ cursor.skipBlanks := Cursor.skipWhile_passes isTagBlank cursor
    have within := isIn.passes passes
    have shorter := passes.length
    rw [readAttributes?, blanks]
    cases more : cursor.skipBlanks.rest with
    | nil =>
      rw [within.byte_none more, scanAttributes]
      simp only [more]
      rfl
    | cons c rest =>
      rw [more, List.length_cons] at shorter
      obtain ⟨byte, same, marks⟩ := within.byte_some more
      have nextRest : cursor.skipBlanks.next.rest = rest := by
        rw [Cursor.next, Cursor.advance, more]
        rfl
      have nextIn := within.passes cursor.skipBlanks.next_passes
      have onward := ih others nextIn (by rw [nextRest]; omega) (by rw [nextRest]; omega)
      -- The first byte of what belongs to no attribute is a narrow character.
      have nextOffset (narrow : ¬ IsWide c) :
          cursor.skipBlanks.offset + 1 = cursor.skipBlanks.next.offset := by
        rw [next_of_narrow narrow more]
      rw [same]
      simp only [marks '>' (by decide), marks '/' (by decide)]
      by_cases closes : c = '>'
      · subst closes
        rw [if_pos rfl, nextOffset (by decide), scanAttributes]
        simp only [more]
        rfl
      · rw [if_neg closes]
        by_cases slash : c = '/'
        · subst slash
          rw [if_pos rfl, nextOffset (by decide), onward, scanAttributes_slash others more]
          simp only [nextIn.byte_eq_some_iff (show ¬ IsWide '>' by decide), nextRest]
          by_cases ends : rest.head? = some '>'
          · obtain ⟨tail, rfl⟩ := List.head?_eq_some_iff.mp ends
            have further : cursor.skipBlanks.next.offset + 1 = cursor.skipBlanks.next.next.offset := by
              rw [next_of_narrow (by decide) nextRest]
            rw [if_pos ends, if_pos ends, Option.map_some, ← further, ← nextOffset (by decide)]
          · rw [if_neg ends, if_neg ends]
        · rw [if_neg slash, readAttribute_eq within, Option.bind_some,
            scanAttributes_item others more closes slash]
          cases found : scanAttribute? cursor.skipBlanks with
          | none =>
            simp only [Option.elim_none]
            rw [nextOffset (narrow_of_scanAttribute found more), onward]
          | some pair =>
            obtain ⟨item, behind⟩ := pair
            obtain ⟨taken, passed, nonempty, _⟩ := scanAttribute_stands found
            have less := passed.length
            rw [more, List.length_cons] at less
            have positive := List.length_pos_of_ne_nil nonempty
            have further := ih others (within.passes passed) (by omega) (by omega)
            simp only [Option.elim_some, further, Option.map_some]
            cases scanAttributes others behind <;> rfl

/-! ## Tokens -/

theorem readStartTag_eq {rest : List Char} (isIn : IsIn source cursor) (opens : cursor.rest = '<' :: rest) :
    readStartTag? source cursor.offset =
      some ((scanStartTag cursor).1, (scanStartTag cursor).2.offset) := by
  have inside := isIn.passes cursor.next_passes
  have passes := Cursor.skipWhile_passes isTagNameChar cursor.next
  have behindName := inside.passes passes
  have start : cursor.offset + 1 = cursor.next.offset := by rw [next_of_narrow (by decide) opens]
  unfold readStartTag? scanStartTag
  simp only
  rw [start, inside.skip agrees_tagName, inside.text passes, Option.bind_some]
  have enough : (cursor.next.skipWhile isTagNameChar).rest.length < byteLength source + 1 := by
    have bound := length_le_byteLength (cursor.next.skipWhile isTagNameChar).rest
    have whole := behindName.length
    omega
  rw [readAttributes_eq _ _ behindName enough (Nat.lt_succ_self _), Option.bind_some]
  cases scanAttributes _ _ with
  | some found => rfl
  | none =>
    rw [Option.map_none]
    simp only
    rw [isIn.textToEnd, isIn.length]
    rfl

theorem readEndTag_eq {rest : List Char} (isIn : IsIn source cursor)
    (opens : cursor.rest = '<' :: '/' :: rest) :
    readEndTag? source cursor.offset = some ((scanEndTag cursor).1, (scanEndTag cursor).2.offset) := by
  have first := next_of_narrow (by decide) opens
  have second : cursor.next.next = ⟨rest, cursor.offset + 2⟩ := by
    rw [next_of_narrow (by decide) (show cursor.next.rest = '/' :: rest by rw [first]), first]
  have inside := (isIn.passes cursor.next_passes).passes cursor.next.next_passes
  have start : cursor.offset + 2 = cursor.next.next.offset := by rw [second]
  have passes := Cursor.skipWhile_passes isTagNameChar cursor.next.next
  have behindName := inside.passes passes
  have behind := behindName.passes (Cursor.skipWhile_passes (fun d => decide (d ≠ '>')) _)
  unfold readEndTag? scanEndTag
  simp only
  rw [start, inside.skip agrees_tagName, inside.text passes, Option.map_some,
    behindName.skip (agrees_ne (by decide)), behind.past]
  intro c held
  rw [head_dropWhile_ne _ c held]
  decide

theorem readText_eq {c : Char} {rest : List Char} (isIn : IsIn source cursor)
    (more : cursor.rest = c :: rest) :
    readText? source cursor.offset = some ((scanText cursor).1, (scanText cursor).2.offset) := by
  -- The bytes behind the first one belong to the first character, or begin the next.
  obtain ⟨first, others, same, wide⟩ : ∃ first others, encodedChar c = first :: others ∧
      ∀ d ∈ others, IsWide d := by
    by_cases wide : IsWide c
    · obtain ⟨first, others, same, _, behind⟩ := encodedChar_of_wide wide
      exact ⟨first, others, same, behind⟩
    · exact ⟨c, [], encodedChar_of_narrow wide, fun _ held => by cases held⟩
  have size : c.utf8Size = others.length + 1 := by
    rw [← encodedChar_length, same, List.length_cons]
  have bytes : bytesFrom source (cursor.offset + 1) = others ++ encoded rest := by
    refine isIn.bytesFrom [first] _ ?_
    rw [more, encoded_cons, same]
    rfl
  have passes := scanText_passes cursor
  have stop : cursor.offset + 1 + (beforeTag (bytesFrom source (cursor.offset + 1))).1.length =
      (scanText cursor).2.offset := by
    rw [passes.offset, bytes, beforeTag_wide wide, beforeTag_encoded, List.length_append, encoded_length,
      more, List.take_succ_cons, List.take_zero, List.drop_succ_cons, List.drop_zero, byteLength_append,
      byteLength, byteLength, size]
    omega
  unfold readText?
  simp only
  rw [stop, isIn.text passes]
  rfl

theorem find_eq (isIn : IsIn source cursor) (pattern : List Char) :
    find? source pattern cursor.offset =
      some ((breakAt? pattern cursor.rest).map fun found => cursor.offset + byteLength found.1) := by
  unfold find?
  rw [isIn.rest]
  rfl

/-- A pattern cannot begin inside of an opening that has no first character of it. -/
theorem breakAt_append {p : Char} {pattern opening : List Char} (differs : ∀ c ∈ opening, p ≠ c)
    (rest : List Char) :
    breakAt? (p :: pattern) (opening ++ rest) =
      (breakAt? (p :: pattern) rest).map fun found => (opening ++ found.1, found.2) := by
  induction opening with
  | nil => cases h : breakAt? (p :: pattern) rest <;> simp [h]
  | cons c opening ih =>
    obtain ⟨here, others⟩ := List.forall_mem_cons.mp differs
    rw [List.cons_append, breakAt_cons (dropLeading_cons_ne here), ih others, Option.map_map]
    rfl

def found : Step → Option (Option Token × Nat)
  | .finished => none
  | .skipped after => some (none, after.offset)
  | .emitted token after => some (some token, after.offset)

theorem readDeclaration_eq {p : Char} {pattern opening rest : List Char} (isIn : IsIn source cursor)
    (opens : cursor.rest = opening ++ rest) (nonempty : opening ≠ []) (differs : ∀ c ∈ opening, p ≠ c)
    (narrow : ∀ c ∈ p :: pattern, ¬ IsWide c) :
    readDeclaration? source (p :: pattern) cursor.offset =
      found (skipDeclaration cursor opening (p :: pattern)) := by
  unfold readDeclaration? skipDeclaration
  rw [find_eq isIn, opens, breakAt_append differs, List.drop_left]
  cases breakAt? (p :: pattern) rest with
  | none =>
    obtain ⟨c, others, more⟩ := List.exists_cons_of_ne_nil nonempty
    rw [more, List.cons_append] at opens
    rw [Option.map_none, Option.map_none, Option.bind_some, readText_eq isIn opens]
    rfl
  | some pair =>
    rw [Option.map_some, Option.map_some, Option.bind_some, ← byteLength_of_narrow narrow]
    simp only [found, Cursor.advance, byteLength_append, Nat.add_assoc]

end

/-- No comment would close before it has been opened: the mark that closes one does
not begin inside of the mark that opens it. -/
structure ClosesApart (source : List Char) : Prop where
  atOnce : contains ['<', '!', '-', '-', '>'] source = false
  oneLater : contains ['<', '!', '-', '-', '-', '>'] source = false

instance (source : List Char) : Decidable (ClosesApart source) :=
  decidable_of_iff (contains ['<', '!', '-', '-', '>'] source = false ∧
      contains ['<', '!', '-', '-', '-', '>'] source = false)
    ⟨fun both => ⟨both.1, both.2⟩, fun apart => ⟨apart.atOnce, apart.oneLater⟩⟩

section

variable {source : List Char} {cursor : Cursor}

theorem ClosesApart.breakAt {rest : List Char} (apart : ClosesApart source) (isIn : IsIn source cursor)
    (opens : cursor.rest = ['<', '!', '-', '-'] ++ rest) :
    breakAt? ['-', '-', '>'] cursor.rest =
      (breakAt? ['-', '-', '>'] rest).map fun found => (['<', '!', '-', '-'] ++ found.1, found.2) := by
  obtain ⟨before, same, _⟩ := isIn
  have second : dropLeading? ['-', '-', '>'] ('-' :: rest) = none := by
    cases starts : dropLeading? ['-', '-', '>'] ('-' :: rest) with
    | none => rfl
    | some behind =>
      have split := List.cons.inj ((dropLeading_eq_some_iff _ _ _).mp starts)
      have meets := contains_append before ['<', '!', '-', '-', '-', '>'] behind
      rw [List.append_assoc, show ['<', '!', '-', '-', '-', '>'] ++ behind = cursor.rest by
        rw [opens, split.2]; rfl, ← same, apart.oneLater] at meets
      cases meets
  have first : dropLeading? ['-', '-', '>'] ('-' :: '-' :: rest) = none := by
    cases starts : dropLeading? ['-', '-', '>'] ('-' :: '-' :: rest) with
    | none => rfl
    | some behind =>
      have split := List.cons.inj (List.cons.inj ((dropLeading_eq_some_iff _ _ _).mp starts)).2
      have meets := contains_append before ['<', '!', '-', '-', '>'] behind
      rw [List.append_assoc, show ['<', '!', '-', '-', '>'] ++ behind = cursor.rest by
        rw [opens, split.2]; rfl, ← same, apart.atOnce] at meets
      cases meets
  rw [opens, show ['<', '!', '-', '-'] ++ rest = ['<', '!'] ++ ('-' :: '-' :: rest) from rfl,
    breakAt_append (by simp), breakAt_cons first, breakAt_cons second, Option.map_map, Option.map_map]
  rfl

theorem readComment_eq {rest : List Char} (apart : ClosesApart source) (isIn : IsIn source cursor)
    (opens : cursor.rest = ['<', '!', '-', '-'] ++ rest) :
    (readComment? source cursor.offset).map given = found (scanComment cursor) := by
  unfold readComment? scanComment
  rw [find_eq isIn, apart.breakAt isIn opens, opens,
    show (['<', '!', '-', '-'] ++ rest).drop 4 = rest from rfl]
  cases closes : breakAt? ['-', '-', '>'] rest with
  | none =>
    rw [Option.map_none, Option.map_none, Option.bind_some, readText_eq isIn opens]
    rfl
  | some pair =>
    obtain ⟨content, behind⟩ := pair
    have split := breakAt_eq_some closes
    have opened : cursor.Passes ['<', '!', '-', '-'] (cursor.advance ['<', '!', '-', '-'] rest) :=
      Cursor.advance_passes opens
    have passed := Cursor.advance_passes (show (cursor.advance ['<', '!', '-', '-'] rest).rest =
      content ++ (['-', '-', '>'] ++ behind) by rw [← List.append_assoc]; exact split)
    have held := (isIn.passes opened).text passed
    have start : cursor.offset + 4 = (cursor.advance ['<', '!', '-', '-'] rest).offset := rfl
    have stop : cursor.offset + byteLength (['<', '!', '-', '-'] ++ content) =
        ((cursor.advance ['<', '!', '-', '-'] rest).advance content (['-', '-', '>'] ++ behind)).offset := by
      rw [byteLength_append]
      exact (Nat.add_assoc ..).symm
    rw [Option.map_some, Option.map_some, Option.bind_some]
    simp only
    rw [start, stop, held]
    simp only [Option.map_some, given, found, Cursor.advance, byteLength_append, Nat.add_assoc]
    rfl

theorem readStep_eq (apart : ClosesApart source) (isIn : IsIn source cursor) (more : cursor.rest ≠ []) :
    readStep? source cursor.offset = found (scanStep cursor) := by
  obtain ⟨c, rest, first⟩ := List.exists_cons_of_ne_nil more
  unfold readStep? scanStep
  simp only
  rw [isIn.bytes, opensTag_encoded, startsWith_encoded (by simp [IsWide]),
    startsWith_encoded (by simp [IsWide]), startsWith_encoded (by simp [IsWide]),
    startsWith_encoded (by simp [IsWide])]
  split
  · rw [readText_eq isIn first]
    rfl
  · next opens =>
    split
    · next comment =>
      obtain ⟨others, same⟩ := eq_append_of_startsWith comment
      exact readComment_eq apart isIn same
    · split
      · next marked =>
        obtain ⟨others, same⟩ := eq_append_of_startsWith marked
        exact readDeclaration_eq isIn same (by simp) (by simp) (by simp [IsWide])
      · split
        · next marked =>
          obtain ⟨others, same⟩ := eq_append_of_startsWith marked
          exact readDeclaration_eq isIn same (by simp) (by simp) (by simp [IsWide])
        · split
          · next ends =>
            obtain ⟨others, same⟩ := eq_append_of_startsWith ends
            rw [readEndTag_eq isIn same]
            rfl
          · obtain ⟨others, same⟩ := eq_cons_of_opensTag (by simpa using opens)
            rw [readStartTag_eq isIn same]
            rfl

/-! ## Sources -/

def plainFound (cursor : Cursor) (content : List Char × List Char) : Option Token × Nat :=
  if content.1.isEmpty then (none, cursor.offset)
  else
    let after := cursor.advance content.1 content.2
    (some (.text (String.ofList content.1) ⟨cursor.offset, after.offset⟩), after.offset)

theorem readPlainText_eq (isIn : IsIn source cursor) (tag : String) :
    readPlainText? source tag cursor.offset = some (plainFound cursor (scanPlainText tag cursor)) := by
  unfold readPlainText? scanPlainText plainFound
  rw [isIn.rest, Option.bind_some]
  simp only
  rw [spanUntil_fst (List.cons_ne_nil _ _)]
  generalize '<' :: '/' :: tag.toList.map asciiLower = closing
  -- The search in lower case finds an index of the text as it stands.
  have stop : ((breakAt? closing (cursor.rest.map asciiLower)).map fun found =>
        cursor.offset + byteLength found.1).getD (byteLength source) =
      cursor.offset + byteLength (cursor.rest.take (((breakAt? closing
        (cursor.rest.map asciiLower)).map Prod.fst).getD (cursor.rest.map asciiLower)).length) := by
    cases found : breakAt? closing (cursor.rest.map asciiLower) with
    | none =>
      rw [Option.map_none, Option.map_none, Option.getD_none, Option.getD_none, List.length_map,
        List.take_length, isIn.length]
    | some pair =>
      rw [Option.map_some, Option.map_some, Option.getD_some, Option.getD_some,
        ← byteLength_map_asciiLower (cursor.rest.take _), List.map_take, breakAt_eq_some found,
        List.append_assoc, List.take_left]
  rw [stop]
  generalize (((breakAt? closing (cursor.rest.map asciiLower)).map Prod.fst).getD
    (cursor.rest.map asciiLower)).length = length
  have passes := Cursor.advance_passes (List.take_append_drop length cursor.rest).symm
  have held := isIn.text passes
  rw [passes.offset] at held
  generalize cursor.rest.take length = content at held passes ⊢
  cases content with
  | nil =>
    rw [byteLength, Nat.add_zero, if_neg (Nat.lt_irrefl _)]
    rfl
  | cons c content =>
    have some := byteLength_pos (List.cons_ne_nil c content)
    rw [if_pos (by omega), held]
    rfl

theorem readFrom_eq (apart : ClosesApart source) (fuel others : Nat) (plain : Option String)
    (isIn : IsIn source cursor) (enough : cursor.rest.length < fuel)
    (enoughToo : cursor.rest.length < others) :
    readFrom? source fuel plain cursor.offset = some (scanFrom others plain cursor) := by
  -- Each round passes a character, so that neither side runs out of fuel.
  induction fuel generalizing others plain cursor with
  | zero => omega
  | succ fuel ih =>
    cases others with
    | zero => omega
    | succ others =>
      have content : (plain.elim (some (none, cursor.offset)) fun tag =>
            readPlainText? source tag cursor.offset) =
          some (plainFound cursor (plain.elim ([], cursor.rest) fun tag => scanPlainText tag cursor)) := by
        cases plain with
        | none => rfl
        | some tag => exact readPlainText_eq isIn tag
      have split := scanPlainText_append plain cursor
      have onward {passed : List Char} {after : Cursor} (passes : cursor.Passes passed after)
          (nonempty : passed ≠ []) (plain : Option String) :
          readFrom? source fuel plain after.offset = some (scanFrom others plain after) := by
        have shorter := passes.length
        have some := List.length_pos_of_ne_nil nonempty
        exact ih others plain (isIn.passes passes) (by omega) (by omega)
      unfold readFrom? scanFrom
      rw [content, Option.bind_some]
      generalize (plain.elim ([], cursor.rest) fun tag => scanPlainText tag cursor) = content at split ⊢
      unfold plainFound
      simp only
      by_cases empty : content.1.isEmpty = true
      · rw [if_pos empty, if_pos empty]
        by_cases finished : cursor.rest = []
        · rw [if_pos (isIn.atEnd_iff.mpr finished)]
          unfold scanStep
          rw [finished]
        · rw [if_neg (mt isIn.atEnd_iff.mp finished), readStep_eq apart isIn finished]
          have reads := scanStep_reads cursor
          cases step : scanStep cursor with
          | finished =>
            rw [step] at reads
            exact absurd reads finished
          | skipped after =>
            rw [step] at reads
            obtain ⟨declaration, passes, isDeclaration⟩ := reads
            exact onward passes (by cases isDeclaration <;> simp) none
          | emitted token after =>
            rw [step] at reads
            obtain ⟨taken, passes, nonempty, _⟩ := reads
            simp only [found, Option.bind_some, onward passes nonempty, Option.map_some]
      · rw [if_neg empty, if_neg empty]
        have passes := Cursor.advance_passes split
        simp only [onward passes (by simpa using empty), Option.map_some]

end

end ByteScan

/-- Scanning the bytes of a source comes to its end, no cut fails on the way, and what
is cut out are the tokens of the source. -/
theorem byteScan_eq_scan {source : String} (apart : ByteScan.ClosesApart source.toList) :
    ByteScan.tokens? source = some (scan source) := by
  have bound := length_le_byteLength source.toList
  have isIn : ByteScan.IsIn source.toList (.ofSource source) := ⟨[], rfl, rfl⟩
  exact ByteScan.readFrom_eq apart _ _ none isIn (Nat.lt_succ_of_le bound) (Nat.lt_succ_self _)

/-- A closing mark inside of the opening one would end the comment before it begins. -/
example : ByteScan.tokens? "<!-->" = none := by decide +kernel

/-- What is read of a source: scanning its bytes cuts texts out at boundaries only and
comes to the end, the tokens follow one another with nothing but declarations between
them, and each of them is not empty and is what stands in the source at its span. -/
theorem scan_reads_source (source : String) (apart : ByteScan.ClosesApart source.toList) :
    ByteScan.tokens? source = some (scan source) ∧
      Tiled 0 source.toList (scan source) ∧
      (scan source).Pairwise (fun earlier later => earlier.span.stop ≤ later.span.start) ∧
      ∀ token ∈ scan source, token.span.start < token.span.stop ∧ token.span.IsWithin source ∧
        ∃ taken, slice? source.toList token.span.start token.span.stop = some taken ∧
          token.HasParts token.span.start taken := by
  have tiled := scan_tiles source
  refine ⟨byteScan_eq_scan apart, tiled, tiled.spans.2, fun token held => ?_⟩
  obtain ⟨front, taken, behind, split, stands⟩ := scan_stands source token held
  refine ⟨(tiled.spans.1 token held).2, scan_within source token held, taken, ?_, ?_⟩
  · rw [stands.span]
    exact slice_eq_some_iff.mpr ⟨front, behind, split, rfl, (byteLength_append ..).symm⟩
  · rw [stands.span]
    exact stands.parts

/-- Two declarations, and wide characters in a name, a value, a text and a comment. -/
theorem scan_reads_source_wide :
    let source := "<!doctype é><p é=ü>ö<!--ä--></p><![if é]>"
    ByteScan.ClosesApart source.toList ∧
      ByteScan.tokens? source = some (scan source) ∧
      Tiled 0 source.toList (scan source) ∧
      (scan source).Pairwise (fun earlier later => earlier.span.stop ≤ later.span.start) ∧
      ∀ token ∈ scan source, token.span.start < token.span.stop ∧ token.span.IsWithin source ∧
        ∃ taken, slice? source.toList token.span.start token.span.stop = some taken ∧
          token.HasParts token.span.start taken :=
  ⟨by decide +kernel, scan_reads_source _ (by decide +kernel)⟩

end Templating.Markup
