import Templating.Proofs.Markup.Scan
import Templating.Proofs.Text.Offsets
import Templating.Proofs.Text.Search
/-!
# Tokens tile the source

Each token is what stands at its span, and the tokens follow one another: between
them, before the first and behind the last there is nothing but declarations.
Scanning goes on to the end of the source.
-/
set_option autoImplicit false

namespace Templating.Markup

open Templating.Text

/-! ## What stands at an offset -/

/-- The attribute is the text at the offset: its name first, and its value behind
the name. -/
structure SourceAttribute.StandsAt (offset : Nat) (taken : List Char)
    (item : SourceAttribute) : Prop where
  span : item.span = ⟨offset, offset + byteLength taken⟩
  parts : ∃ behind, taken = item.name.toList ++ behind ∧
    ∀ value ∈ item.value, ∃ before after, behind = before ++ value.toList ++ after

inductive AttributesStand : Nat → List Char → List SourceAttribute → Prop where
  | nil (offset : Nat) (rest : List Char) : AttributesStand offset rest []
  | cons {offset : Nat} {item : SourceAttribute} {others : List SourceAttribute}
      (skipped taken : List Char) {rest : List Char}
      (stands : item.StandsAt (offset + byteLength skipped) taken) (nonempty : taken ≠ [])
      (behind : AttributesStand (offset + byteLength (skipped ++ taken)) rest others) :
    AttributesStand offset (skipped ++ taken ++ rest) (item :: others)

/-- The parts of a token are those of the text that is taken for it. -/
def Token.HasParts (offset : Nat) (taken : List Char) : Token → Prop
  | .startTag name attributes _ _ =>
    ∃ inside, taken = '<' :: name.toList ++ inside ∧
      AttributesStand (offset + byteLength ('<' :: name.toList)) inside attributes
  | .endTag name _ => ∃ behind, taken = '<' :: '/' :: name.toList ++ behind
  | .text content _ => taken = content.toList
  | .comment content _ =>
    taken = ['<', '!', '-', '-'] ++ content.toList ++ ['-', '-', '>'] ∧
      contains ['-', '-', '>'] content.toList = false
  | .malformed content _ => taken = content.toList

/-- The token is the text at the offset. -/
structure Token.StandsAt (offset : Nat) (taken : List Char) (token : Token) : Prop where
  span : token.span = ⟨offset, offset + byteLength taken⟩
  parts : token.HasParts offset taken

/-- A declaration ends where its closing mark is found first. -/
inductive IsDeclaration : List Char → Prop where
  | bracketed (inside : List Char) (first : contains [']', '>'] inside = false) :
    IsDeclaration (['<', '!', '['] ++ inside ++ [']', '>'])
  | plain (inside : List Char) (first : contains ['>'] inside = false) :
    IsDeclaration (['<', '!'] ++ inside ++ ['>'])

/-- The tokens make up the text from the offset on, together with declarations that
are left out. -/
inductive Tiled : Nat → List Char → List Token → Prop where
  | finished (offset : Nat) : Tiled offset [] []
  | skipped {offset : Nat} {declaration rest : List Char} {tokens : List Token}
      (isDeclaration : IsDeclaration declaration)
      (behind : Tiled (offset + byteLength declaration) rest tokens) :
    Tiled offset (declaration ++ rest) tokens
  | token {offset : Nat} {taken rest : List Char} {token : Token} {tokens : List Token}
      (stands : token.StandsAt offset taken) (nonempty : taken ≠ [])
      (behind : Tiled (offset + byteLength taken) rest tokens) :
    Tiled offset (taken ++ rest) (token :: tokens)

/-! ## Spans of tiles -/

/-- Tokens are within what they tile, and each one begins where the ones before it
have ended. -/
theorem Tiled.spans {offset : Nat} {rest : List Char} {tokens : List Token}
    (tiled : Tiled offset rest tokens) :
    (∀ token ∈ tokens, offset ≤ token.span.start ∧ token.span.start < token.span.stop) ∧
      tokens.Pairwise fun earlier later => earlier.span.stop ≤ later.span.start := by
  induction tiled with
  | finished => exact ⟨List.forall_mem_nil _, .nil⟩
  | skipped isDeclaration behind ih =>
    refine ⟨fun token held => ?_, ih.2⟩
    have bounds := ih.1 token held
    omega
  | token stands nonempty behind ih =>
    have size := byteLength_pos nonempty
    have span := stands.span
    refine ⟨fun token held => ?_, .cons (fun later held => ?_) ih.2⟩
    · rcases List.mem_cons.mp held with rfl | held
      · rw [span]
        exact ⟨Nat.le_refl _, Nat.lt_add_of_pos_right size⟩
      · have bounds := ih.1 token held
        omega
    · rw [span]
      exact (ih.1 later held).1

theorem Tiled.stands {offset : Nat} {rest : List Char} {tokens : List Token}
    (tiled : Tiled offset rest tokens) {source : List Char} (before : List Char)
    (split : source = before ++ rest) (start : offset = byteLength before) :
    ∀ token ∈ tokens, ∃ front taken behind, source = front ++ taken ++ behind ∧
      token.StandsAt (byteLength front) taken := by
  induction tiled generalizing before with
  | finished => exact fun _ held => by cases held
  | @skipped offset declaration rest tokens isDeclaration behind ih =>
    refine ih (before ++ declaration) ?_ ?_
    · rw [split, List.append_assoc]
    · rw [start, byteLength_append]
  | @token offset taken rest token tokens stands nonempty behind ih =>
    intro other held
    rcases List.mem_cons.mp held with rfl | held
    · exact ⟨before, taken, rest, by rw [split, List.append_assoc], start ▸ stands⟩
    · refine ih (before ++ taken) ?_ ?_ other held
      · rw [split, List.append_assoc]
      · rw [start, byteLength_append]

/-! ## Cursors -/

/-- The second cursor stands behind what is passed from the first one on. -/
structure Cursor.Passes (before : Cursor) (passed : List Char) (after : Cursor) : Prop where
  rest : before.rest = passed ++ after.rest
  offset : after.offset = before.offset + byteLength passed

namespace Cursor

theorem Passes.refl (cursor : Cursor) : cursor.Passes [] cursor := ⟨rfl, rfl⟩

theorem Passes.trans {before between after : Cursor} {first second : List Char}
    (passes : before.Passes first between) (further : between.Passes second after) :
    before.Passes (first ++ second) after where
  rest := by rw [passes.rest, further.rest, List.append_assoc]
  offset := by rw [further.offset, passes.offset, byteLength_append, Nat.add_assoc]

theorem advance_passes {cursor : Cursor} {passed rest : List Char}
    (split : cursor.rest = passed ++ rest) : cursor.Passes passed (cursor.advance passed rest) :=
  ⟨split, rfl⟩

theorem skipWhile_passes (accepts : Char → Bool) (cursor : Cursor) :
    cursor.Passes (cursor.rest.takeWhile accepts) (cursor.skipWhile accepts) :=
  advance_passes List.takeWhile_append_dropWhile.symm

theorem next_passes (cursor : Cursor) : cursor.Passes (cursor.rest.take 1) cursor.next :=
  advance_passes (List.take_append_drop 1 cursor.rest).symm

theorem Passes.length {before after : Cursor} {passed : List Char}
    (passes : before.Passes passed after) :
    before.rest.length = passed.length + after.rest.length := by
  rw [passes.rest, List.length_append]

end Cursor

/-! ## Attributes -/

theorem attributeName_append (depth : Int) (rest : List Char) :
    (attributeName depth rest).1 ++ (attributeName depth rest).2 = rest := by
  induction rest generalizing depth with
  | nil => rfl
  | cons c rest ih =>
    unfold attributeName
    simp only
    generalize (if c = '[' then depth + 1 else if c = ']' then depth - 1 else depth) = inside
    split
    · rw [List.cons_append, ih]
    · rfl

theorem attributeValue_passes (cursor : Cursor) :
    ∃ taken, cursor.Passes taken (attributeValue cursor).2 ∧
      ∀ value ∈ (attributeValue cursor).1, ∃ before after, taken = before ++ value.toList ++ after := by
  unfold attributeValue
  split
  · exact ⟨[], .refl cursor, fun _ held => by cases held⟩
  · next c rest given =>
    split
    · simp only
      generalize inside : rest.takeWhile (· ≠ c) = value
      have split : rest = value ++ rest.drop value.length := by
        have front : value = rest.take value.length := by
          rw [← inside]
          exact List.prefix_iff_eq_take.mp (List.takeWhile_prefix _)
        conv_lhs => rw [← List.take_append_drop value.length rest, ← front]
      generalize rest.drop value.length = behind at split ⊢
      refine ⟨c :: value ++ behind.take 1, Cursor.advance_passes ?_, ?_⟩
      · rw [given, split, List.cons_append, List.cons_append, List.append_assoc,
          List.take_append_drop]
      · rintro _ ⟨⟩
        exact ⟨[c], behind.take 1, by simp⟩
    · simp only
      generalize inside : cursor.rest.takeWhile (fun d => !endsPlainValue d) = value
      split
      · exact ⟨[], .refl cursor, fun _ held => by cases held⟩
      · have front : value = cursor.rest.take value.length := by
          rw [← inside]
          exact List.prefix_iff_eq_take.mp (List.takeWhile_prefix _)
        refine ⟨value, Cursor.advance_passes ?_, ?_⟩
        · conv_lhs => rw [← List.take_append_drop value.length cursor.rest, ← front]
        · rintro _ ⟨⟩
          exact ⟨[], [], by simp⟩

theorem scanAttribute_stands {cursor after : Cursor} {item : SourceAttribute}
    (found : scanAttribute? cursor = some (item, after)) :
    ∃ taken, cursor.Passes taken after ∧ taken ≠ [] ∧ item.StandsAt cursor.offset taken := by
  unfold scanAttribute? at found
  simp only at found
  have split := attributeName_append 0 cursor.rest
  generalize attributeName 0 cursor.rest = named at found split
  obtain ⟨name, behind⟩ := named
  simp only at found split
  split at found
  · cases found
  · next nonempty =>
    have named := Cursor.advance_passes split.symm
    have isName : name ≠ [] := fun empty => nonempty (by rw [empty]; rfl)
    split at found
    · -- A value may follow the equals sign, with blanks on both sides of it.
      generalize cursor.advance name behind = behindName at found named
      obtain ⟨equals, assigned⟩ :
          ∃ equals, behindName.Passes equals behindName.skipBlanks.next.skipBlanks :=
        ⟨_, ((Cursor.skipWhile_passes isTagBlank behindName).trans
          (Cursor.next_passes behindName.skipBlanks)).trans
            (Cursor.skipWhile_passes isTagBlank behindName.skipBlanks.next)⟩
      obtain ⟨valued, passes, inside⟩ := attributeValue_passes behindName.skipBlanks.next.skipBlanks
      have whole := named.trans (assigned.trans passes)
      obtain ⟨rfl, rfl⟩ := Prod.mk.inj (Option.some.inj found)
      refine ⟨_, whole, by simp [isName], ?_, _, (by rw [String.toList_ofList]), ?_⟩
      · rw [whole.offset]
      · intro value held
        obtain ⟨before, behindValue, same⟩ := inside value held
        refine ⟨equals ++ before, behindValue, ?_⟩
        rw [same]
        simp only [List.append_assoc]
    · obtain ⟨rfl, rfl⟩ := Prod.mk.inj (Option.some.inj found)
      refine ⟨name, named, isName, by rw [named.offset], [], by simp, fun _ held => by cases held⟩

theorem AttributesStand.behind {offset : Nat} {skipped rest : List Char}
    {attributes : List SourceAttribute}
    (stand : AttributesStand (offset + byteLength skipped) rest attributes) :
    AttributesStand offset (skipped ++ rest) attributes := by
  cases stand with
  | nil => exact .nil _ _
  | cons passed taken stands nonempty behind =>
    rw [Nat.add_assoc, ← byteLength_append] at stands behind
    have joined : AttributesStand offset (skipped ++ passed ++ taken ++ _) _ :=
      .cons (skipped ++ passed) taken stands nonempty (by rwa [List.append_assoc])
    simpa only [List.append_assoc] using joined

theorem scanAttributes_stand (fuel : Nat) {cursor after : Cursor} {attributes : List SourceAttribute}
    {selfClosing : Bool} (found : scanAttributes fuel cursor = some (attributes, selfClosing, after)) :
    ∃ taken, cursor.Passes taken after ∧ AttributesStand cursor.offset taken attributes := by
  induction fuel generalizing cursor attributes with
  | zero => cases found
  | succ fuel ih =>
    unfold scanAttributes at found
    simp only at found
    have blanks := Cursor.skipWhile_passes isTagBlank cursor
    change cursor.Passes _ cursor.skipBlanks at blanks
    generalize cursor.skipBlanks = here at found blanks
    -- Characters that belong to no attribute are skipped like blanks.
    have skipped (rest : scanAttributes fuel here.next = some (attributes, selfClosing, after)) :
        ∃ taken, cursor.Passes taken after ∧ AttributesStand cursor.offset taken attributes := by
      obtain ⟨taken, passes, stand⟩ := ih rest
      have front := blanks.trans here.next_passes
      rw [front.offset] at stand
      exact ⟨_, front.trans passes, stand.behind⟩
    split at found
    · cases found
    · cases found
      exact ⟨_, blanks.trans here.next_passes, .nil _ _⟩
    · cases found
      exact ⟨_, blanks.trans (here.next_passes.trans here.next.next_passes), .nil _ _⟩
    · exact skipped found
    · split at found
      · exact skipped found
      · next item behind scanned =>
        obtain ⟨⟨others, closes, final⟩, rest, same⟩ := Option.map_eq_some_iff.mp found
        cases same
        obtain ⟨taken, passes, nonempty, stands⟩ := scanAttribute_stands scanned
        obtain ⟨further, passesRest, stand⟩ := ih rest
        have front := blanks.trans passes
        rw [blanks.offset] at stands
        rw [front.offset] at stand
        exact ⟨_, front.trans passesRest, .cons _ taken stands nonempty stand⟩

/-! ## Tokens -/

/-- A token with the cursor behind it: it stands before that cursor, and is not
empty. -/
def Covers (cursor : Cursor) (token : Token) (after : Cursor) : Prop :=
  ∃ taken, cursor.Passes taken after ∧ taken ≠ [] ∧ token.StandsAt cursor.offset taken

theorem scanStartTag_covers {cursor : Cursor} {rest : List Char} (opens : cursor.rest = '<' :: rest) :
    Covers cursor (scanStartTag cursor).1 (scanStartTag cursor).2 := by
  have nonempty : cursor.rest ≠ [] := by rw [opens]; exact List.cons_ne_nil _ _
  have first := cursor.next_passes
  rw [opens, List.take_succ_cons, List.take_zero] at first
  have named := first.trans (Cursor.skipWhile_passes isTagNameChar cursor.next)
  unfold scanStartTag
  simp only
  split
  · next attributes selfClosing after found =>
    obtain ⟨taken, passes, stand⟩ := scanAttributes_stand _ found
    have whole := named.trans passes
    refine ⟨_, whole, by simp, ?_, taken, ?_, ?_⟩
    · rw [Token.span, whole.offset]
    · rw [String.toList_ofList]
      rfl
    · rw [String.toList_ofList]
      rw [named.offset] at stand
      exact stand
  · have whole := Cursor.advance_passes (List.append_nil cursor.rest).symm
    refine ⟨cursor.rest, whole, nonempty, ?_, ?_⟩
    · rw [Token.span, whole.offset]
    · exact (String.toList_ofList).symm

theorem scanEndTag_covers {cursor : Cursor} {rest : List Char}
    (opens : cursor.rest = '<' :: '/' :: rest) :
    Covers cursor (scanEndTag cursor).1 (scanEndTag cursor).2 := by
  have first := cursor.next_passes
  have inside : cursor.next.rest = '/' :: rest := by
    unfold Cursor.next Cursor.advance
    rw [opens]
    rfl
  have second := cursor.next.next_passes
  rw [opens, List.take_succ_cons, List.take_zero] at first
  rw [inside, List.take_succ_cons, List.take_zero] at second
  have named := (first.trans second).trans (Cursor.skipWhile_passes isTagNameChar cursor.next.next)
  have whole := (named.trans (Cursor.skipWhile_passes (· ≠ '>') _)).trans (Cursor.next_passes _)
  refine ⟨_, whole, by simp, congrArg (Span.mk cursor.offset) whole.offset, ?_⟩
  refine ⟨((cursor.next.next.skipWhile isTagNameChar).rest.takeWhile (· ≠ '>')) ++
    ((cursor.next.next.skipWhile isTagNameChar).skipWhile (· ≠ '>')).rest.take 1, ?_⟩
  rw [String.toList_ofList]
  simp only [List.append_assoc, List.cons_append, List.nil_append]

theorem beforeTag_append (rest : List Char) : (beforeTag rest).1 ++ (beforeTag rest).2 = rest := by
  induction rest with
  | nil => rfl
  | cons c rest ih =>
    unfold beforeTag
    split
    · rfl
    · rw [List.cons_append, ih]

theorem scanText_passes (cursor : Cursor) :
    cursor.Passes (cursor.rest.take 1 ++ (beforeTag (cursor.rest.drop 1)).1) (scanText cursor).2 := by
  refine Cursor.advance_passes ?_
  rw [List.append_assoc, beforeTag_append, List.take_append_drop]

theorem scanText_covers {cursor : Cursor} (nonempty : cursor.rest ≠ []) :
    Covers cursor (scanText cursor).1 (scanText cursor).2 := by
  refine ⟨_, scanText_passes cursor, ?_, ?_, ?_⟩
  · cases given : cursor.rest with
    | nil => exact absurd given nonempty
    | cons c rest => exact List.cons_ne_nil _ _
  · exact congrArg (Span.mk cursor.offset) (scanText_passes cursor).offset
  · exact (String.toList_ofList).symm

/-! ## Steps -/

def Step.Reads (cursor : Cursor) : Step → Prop
  | .finished => cursor.rest = []
  | .skipped after => ∃ declaration, cursor.Passes declaration after ∧ IsDeclaration declaration
  | .emitted token after => Covers cursor token after

theorem scanComment_reads {cursor : Cursor} {rest : List Char}
    (opens : cursor.rest = ['<', '!', '-', '-'] ++ rest) : (scanComment cursor).Reads cursor := by
  have nonempty : cursor.rest ≠ [] := by rw [opens]; exact List.cons_ne_nil _ _
  unfold scanComment
  split
  · next content behind found =>
    have split : cursor.rest = ['<', '!', '-', '-'] ++ content ++ ['-', '-', '>'] ++ behind := by
      have inside := breakAt_eq_some found
      rw [opens] at inside
      change rest = _ at inside
      rw [opens, inside]
      simp only [List.append_assoc]
    have whole := Cursor.advance_passes split
    refine ⟨_, whole, by simp, ?_, ?_, ?_⟩
    · rw [Token.span, whole.offset]
    · rw [String.toList_ofList]
    · rw [String.toList_ofList]
      exact contains_of_breakAt (by simp) found
  · exact scanText_covers nonempty

theorem skipDeclaration_reads {cursor : Cursor} {opening closing rest : List Char}
    (opens : cursor.rest = opening ++ rest) (nonempty : cursor.rest ≠ []) (closes : closing ≠ [])
    (declares : ∀ inside, contains closing inside = false →
      IsDeclaration (opening ++ inside ++ closing)) :
    (skipDeclaration cursor opening closing).Reads cursor := by
  unfold skipDeclaration
  split
  · next passed behind found =>
    have split : cursor.rest = opening ++ passed ++ closing ++ behind := by
      have inside := breakAt_eq_some found
      rw [opens, List.drop_left' rfl] at inside
      rw [opens, inside]
      simp only [List.append_assoc]
    exact ⟨_, Cursor.advance_passes split, declares passed (contains_of_breakAt closes found)⟩
  · exact scanText_covers nonempty

theorem eq_append_of_startsWith {pattern source : List Char}
    (starts : startsWith pattern source = true) : ∃ rest, source = pattern ++ rest := by
  obtain ⟨rest, dropped⟩ := Option.isSome_iff_exists.mp starts
  exact ⟨rest, (dropLeading_eq_some_iff _ _ _).mp dropped⟩

theorem eq_cons_of_opensTag {rest : List Char} (opens : opensTag rest = true) :
    ∃ others, rest = '<' :: others := by
  unfold opensTag at opens
  split at opens
  · exact ⟨_, rfl⟩
  · exact ⟨_, rfl⟩
  · cases opens

theorem scanStep_reads (cursor : Cursor) : (scanStep cursor).Reads cursor := by
  unfold scanStep
  split
  · next finished => exact finished
  · next rest some =>
    have nonempty : cursor.rest ≠ [] := some
    split
    · exact scanText_covers nonempty
    · next opens =>
      split
      · next comment =>
        obtain ⟨others, same⟩ := eq_append_of_startsWith comment
        exact scanComment_reads same
      · split
        · next marked =>
          obtain ⟨others, same⟩ := eq_append_of_startsWith marked
          exact skipDeclaration_reads same nonempty (by simp) .bracketed
        · split
          · next marked =>
            obtain ⟨others, same⟩ := eq_append_of_startsWith marked
            exact skipDeclaration_reads same nonempty (by simp) .plain
          · split
            · next ends =>
              obtain ⟨others, same⟩ := eq_append_of_startsWith ends
              exact scanEndTag_covers same
            · obtain ⟨others, same⟩ := eq_cons_of_opensTag (by simpa using opens)
              exact scanStartTag_covers same

/-! ## Sources -/

theorem scanPlainText_append (plain : Option String) (cursor : Cursor) :
    cursor.rest = (plain.elim ([], cursor.rest) fun tag => scanPlainText tag cursor).1 ++
      (plain.elim ([], cursor.rest) fun tag => scanPlainText tag cursor).2 := by
  cases plain with
  | none => rfl
  | some tag => exact (List.take_append_drop _ cursor.rest).symm

theorem scanFrom_tiled (fuel : Nat) (plain : Option String) (cursor : Cursor)
    (enough : cursor.rest.length < fuel) :
    Tiled cursor.offset cursor.rest (scanFrom fuel plain cursor) := by
  induction fuel generalizing plain cursor with
  | zero => omega
  | succ fuel ih =>
    -- Whatever is passed leaves less to read, and so enough fuel.
    have onward {passed : List Char} {after : Cursor} (passes : cursor.Passes passed after)
        (nonempty : passed ≠ []) (plain : Option String) :
        Tiled (cursor.offset + byteLength passed) after.rest (scanFrom fuel plain after) := by
      have shorter := passes.length
      have some := List.length_pos_of_ne_nil nonempty
      rw [← passes.offset]
      exact ih plain after (by omega)
    unfold scanFrom
    simp only
    split
    · have reads := scanStep_reads cursor
      split
      · next finished =>
        rw [finished] at reads
        rw [show cursor.rest = [] from reads]
        exact .finished _
      · next after skipped =>
        rw [skipped] at reads
        obtain ⟨declaration, passes, isDeclaration⟩ := reads
        have nonempty : declaration ≠ [] := by cases isDeclaration <;> simp
        rw [passes.rest]
        exact .skipped isDeclaration (onward passes nonempty none)
      · next token after emitted =>
        rw [emitted] at reads
        obtain ⟨taken, passes, nonempty, stands⟩ := reads
        rw [passes.rest]
        exact .token stands nonempty (onward passes nonempty _)
    · next found =>
      have split := scanPlainText_append plain cursor
      generalize (plain.elim ([], cursor.rest) fun tag => scanPlainText tag cursor) = content at found split ⊢
      have nonempty : content.1 ≠ [] := by simpa using found
      have passes := Cursor.advance_passes split
      rw [passes.rest]
      refine .token ⟨?_, (String.toList_ofList).symm⟩ nonempty (onward passes nonempty none)
      rw [Token.span, passes.offset]

theorem scan_tiles (source : String) : Tiled 0 source.toList (scan source) :=
  scanFrom_tiled _ none (.ofSource source) (Nat.lt_succ_self _)

theorem scan_stands (source : String) :
    ∀ token ∈ scan source, ∃ front taken behind, source.toList = front ++ taken ++ behind ∧
      token.StandsAt (byteLength front) taken :=
  (scan_tiles source).stands [] rfl rfl

theorem scan_within (source : String) : ∀ token ∈ scan source, token.span.IsWithin source := by
  intro token held
  obtain ⟨front, taken, behind, split, stands⟩ := scan_stands source token held
  rw [stands.span]
  exact Span.isWithin_of_append split

end Templating.Markup
