import Templating.Data.Value
import Templating.Proofs.Grammar.Operands
/-!
# Reading JSON

The value that a JSON text stands for.  Blanks may stand around every mark, and
nowhere else; a text holds no control character, and every one of the escapes is
read.  Of two fields with one name the last one counts.
-/
set_option autoImplicit false

namespace Templating.Data.Json

open Templating.Text Templating.Expression Templating.Expression.Grammar

/-! ## Texts -/

/-- The character that one character behind a backslash stands for. -/
def plainEscape? (c : Char) : Option Char :=
  if c = '\x22' ∨ c = '\\' ∨ c = '/' then some c
  else if c = 'b' then some '\x08'
  else if c = 'f' then some '\x0c'
  else if c = 'n' then some '\n'
  else if c = 'r' then some '\r'
  else if c = 't' then some '\t'
  else none

def unit? : Reader Nat
  | 'u' :: a :: b :: c :: d :: rest =>
    (digitsValue? 16 0 [a, b, c, d]).map fun value => (value, rest)
  | _ => none

/-- The second unit of a character that takes two. -/
def lowUnit? : Reader Nat
  | '\\' :: rest => (unit? rest).filter fun found => 0xDC00 ≤ found.1 && found.1 < 0xE000
  | _ => none

/-- A character by its one or two units; half of a pair is no character. -/
def unicodeEscape? : Reader Char := fun source => do
  let (first, rest) ← unit? source
  if 0xD800 ≤ first ∧ first < 0xDC00 then
    let (second, behind) ← lowUnit? rest
    let c ← character? (0x10000 + (first - 0xD800) * 0x400 + (second - 0xDC00))
    return (c, behind)
  else
    let c ← character? first
    return (c, rest)

def textChar : Reader Char
  | [] => none
  | '\\' :: 'u' :: rest => unicodeEscape? ('u' :: rest)
  | '\\' :: c :: rest => (plainEscape? c).map fun meant => (meant, rest)
  | '\\' :: [] => none
  | c :: rest => if c = '\x22' ∨ c.toNat < 0x20 then none else some (c, rest)

def text : Reader String := fun source => do
  let inside ← mark? "\"" source
  let (content, behind) := many textChar inside
  let rest ← dropLeading? ['\x22'] behind
  return (String.ofList content, rest)

/-! ## Values -/

/-- A number has no zero in front of other digits, and digits on both sides of a
point. -/
def number : Reader Value := fun source =>
  let start := skipBlanks source
  let unsigned := (dropLeading? ['-'] start).getD start
  let sign := start.take (start.length - unsigned.length)
  let whole := unsigned.takeWhile isAsciiDigit
  if whole.isEmpty || (whole.head? == some '0' && 1 < whole.length) then none
  else
    (numberText unsigned).map fun (digits, rest) =>
      (.number ((Number.read? (sign ++ digits)).getD Number.notANumber), rest)

def word (spelling : String) (value : Value) : Reader Value := fun source =>
  (mark? spelling source).map fun rest => (value, rest)

def field (nested : Reader Value) : Reader (String × Value) := fun source => do
  let (name, afterName) ← text source
  let afterColon ← mark? ":" afterName
  let (value, rest) ← nested afterColon
  return ((name, value), rest)

def valueWith (nested : Reader Value) : Reader Value := fun source =>
  (word "null" .null source).orElse fun _ =>
  (word "true" (.boolean true) source).orElse fun _ =>
  (word "false" (.boolean false) source).orElse fun _ =>
  ((text source).map fun (content, rest) => (Value.string content, rest)).orElse fun _ =>
  (number source).orElse fun _ =>
  ((enclosed "[" "]" nested source).map fun (items, rest) => (Value.list items, rest)).orElse
    fun _ =>
  (enclosed "\x7b" "\x7d" (field nested) source).map fun (fields, rest) =>
    (Value.ofPairs fields, rest)

def valueIn : Nat → Reader Value
  | 0 => fun _ => none
  | depth + 1 => valueWith (valueIn depth)

def value : Reader Value := fun source => valueIn (source.length + 1) source

def read? (source : String) : Option Value := whole? value source

end Templating.Data.Json

/-! ## Readers take characters -/

namespace Templating.Expression.Grammar

variable {α β : Type}

theorem Shortens.orElse {first second : Reader α} (one : Shortens first) (two : Shortens second) :
    Shortens fun source => (first source).orElse fun _ => second source := by
  intro source result rest found
  cases here : first source with
  | some entry =>
    simp only [here, Option.orElse] at found
    exact one _ _ _ (here.trans found)
  | none =>
    simp only [here, Option.orElse] at found
    exact two _ _ _ found

theorem Shortens.map {reader : Reader α} (shortens : Shortens reader) (change : α → β) :
    Shortens fun source => (reader source).map fun entry => (change entry.1, entry.2) := by
  intro source result rest found
  obtain ⟨entry, read, same⟩ := Option.map_eq_some_iff.mp found
  obtain ⟨-, rfl⟩ := Prod.mk.inj same
  exact shortens _ _ _ read

theorem many_length_le {reader : Reader α} (shortens : Shortens reader) (source : List Char) :
    (many reader source).2.length ≤ source.length :=
  (many_match reader reader (samePairing_self [] source) fun left right same _ _ => by
    cases same
    exact match_self (shortens left)).leftBound

theorem enclosed_shortens {reader : Reader α} {opening closing : String} {opener closer : Char}
    (pair : IsBracketPair opening closing opener closer) (shortens : Shortens reader) :
    Shortens (enclosed opening closing reader) := by
  intro source result rest found
  refine (enclosed_match pair (samePairing_self [] source) fun left right same _ _ => ?_).length_lt found
  cases same
  exact (match_self (shortens left)).weaken

end Templating.Expression.Grammar

namespace Templating.Data.Json

open Templating.Text Templating.Expression Templating.Expression.Grammar

theorem unit_shortens : Shortens unit? := by
  intro source value rest found
  unfold unit? at found
  split at found
  · obtain ⟨_, -, same⟩ := Option.map_eq_some_iff.mp found
    obtain ⟨-, rfl⟩ := Prod.mk.inj same
    simp only [List.length_cons]
    omega
  · cases found

theorem lowUnit_shortens : Shortens lowUnit? := by
  intro source value rest found
  unfold lowUnit? at found
  split at found
  · exact Nat.lt_succ_of_lt (unit_shortens _ _ _ (Option.filter_eq_some_iff.mp found).1)
  · cases found

theorem unicodeEscape_shortens : Shortens unicodeEscape? := by
  intro source c rest found
  simp only [unicodeEscape?, Option.bind_eq_bind, Option.bind_eq_some_iff] at found
  obtain ⟨⟨first, behindFirst⟩, firstRead, found⟩ := found
  have shorter := unit_shortens _ _ _ firstRead
  split at found
  · obtain ⟨⟨second, behind⟩, secondRead, found⟩ := Option.bind_eq_some_iff.mp found
    obtain ⟨_, -, same⟩ := Option.bind_eq_some_iff.mp found
    obtain ⟨-, rfl⟩ := Prod.mk.inj (Option.some.inj same)
    exact (lowUnit_shortens _ _ _ secondRead).trans shorter
  · obtain ⟨_, -, same⟩ := Option.bind_eq_some_iff.mp found
    obtain ⟨-, rfl⟩ := Prod.mk.inj (Option.some.inj same)
    exact shorter

theorem textChar_shortens : Shortens textChar := by
  intro source c rest found
  unfold textChar at found
  split at found
  · cases found
  · exact Nat.lt_succ_of_lt (unicodeEscape_shortens _ _ _ found)
  · obtain ⟨_, -, same⟩ := Option.map_eq_some_iff.mp found
    obtain ⟨-, rfl⟩ := Prod.mk.inj same
    simp only [List.length_cons]
    omega
  · cases found
  · split at found
    · cases found
    · obtain ⟨-, rfl⟩ := Prod.mk.inj (Option.some.inj found)
      exact Nat.lt_succ_self _

theorem text_shortens : Shortens text := by
  intro source content rest found
  simp only [text, Option.bind_eq_bind, Option.bind_eq_some_iff] at found
  obtain ⟨inside, opened, behind, closed, same⟩ := found
  obtain ⟨-, rfl⟩ := Prod.mk.inj (Option.some.inj same)
  have less := mark_length_lt (by decide) opened
  have within := many_length_le textChar_shortens inside
  rw [dropLeading_eq_some_iff] at closed
  rw [closed] at within
  simp only [List.singleton_append, List.length_cons] at within
  omega

theorem word_shortens {spelling : String} (given : spelling.toList ≠ []) (meant : Value) :
    Shortens (word spelling meant) := by
  intro source result rest found
  obtain ⟨_, marked, same⟩ := Option.map_eq_some_iff.mp found
  obtain ⟨-, rfl⟩ := Prod.mk.inj same
  exact mark_length_lt given marked

theorem signless_length_le (source : List Char) :
    ((dropLeading? ['-'] source).getD source).length ≤ source.length := by
  cases signed : dropLeading? ['-'] source with
  | none => exact Nat.le_refl _
  | some rest =>
    rw [(dropLeading_eq_some_iff _ _ _).mp signed]
    exact Nat.le_succ _

theorem number_shortens : Shortens number := by
  intro source result rest found
  simp only [number] at found
  split at found
  · cases found
  · obtain ⟨entry, read, same⟩ := Option.map_eq_some_iff.mp found
    obtain ⟨-, rfl⟩ := Prod.mk.inj same
    have less := numberText_length_lt read
    have bound := skipBlanks_length_le source
    have signless := signless_length_le (skipBlanks source)
    omega

section Nested

variable {nested : Reader Value} (shortens : Shortens nested)

include shortens

theorem field_shortens : Shortens (field nested) := by
  intro source result rest found
  simp only [field, Option.bind_eq_bind, Option.bind_eq_some_iff] at found
  obtain ⟨⟨name, afterName⟩, named, afterColon, marked, ⟨value, behind⟩, read, same⟩ := found
  obtain ⟨-, rfl⟩ := Prod.mk.inj (Option.some.inj same)
  have one := text_shortens _ _ _ named
  have two := mark_length_lt (by decide) marked
  exact ((shortens _ _ _ read).trans two).trans one

theorem valueWith_shortens : Shortens (valueWith nested) :=
  (word_shortens (by decide) _).orElse <| (word_shortens (by decide) _).orElse <|
    (word_shortens (by decide) _).orElse <| (text_shortens.map _).orElse <|
    number_shortens.orElse <| ((enclosed_shortens squarePair shortens).map _).orElse <|
    (enclosed_shortens curlyPair (field_shortens shortens)).map _

end Nested

theorem valueIn_shortens (depth : Nat) : Shortens (valueIn depth) := by
  induction depth with
  | zero => exact fun _ _ _ found => by cases found
  | succ depth ih => exact valueWith_shortens ih

/-! ## Reading what is written -/

/-- The reader takes `code` for `result`, whatever stands behind it. -/
def Takes {α : Type} (reader : Reader α) (code : List Char) (result : α) : Prop :=
  ∀ tail, reader (code ++ tail) = some (result, tail)

theorem many_textChar {write : Char → List Char} {content : List Char}
    (each : ∀ c ∈ content, Takes textChar (write c) c) (tail : List Char) :
    many textChar (content.flatMap write ++ '\x22' :: tail) = (content, '\x22' :: tail) := by
  induction content with
  | nil => exact many_none _ rfl
  | cons c rest ih =>
    have others := ih fun d held => each d (List.mem_cons_of_mem c held)
    rw [many_eq textChar_shortens, List.flatMap_cons, List.append_assoc,
      each c List.mem_cons_self]
    simp only [others]

theorem text_takes {write : Char → List Char} {content : List Char}
    (each : ∀ c ∈ content, Takes textChar (write c) c) :
    Takes text ('\x22' :: (content.flatMap write ++ ['\x22'])) (String.ofList content) := by
  intro tail
  have opened := mark_self "\"" '\x22' rfl rfl (content.flatMap write ++ '\x22' :: tail)
  simp [text, opened, many_textChar each, dropLeading?]

/-- Escapes are read that need not be written, a pair of units among them. -/
example : text "\"\\u00e9\\ud83d\\ude00\\/\",".toList =
    some (String.ofList [Char.ofNat 0xE9, Char.ofNat 0x1F600, '/'], [',']) := by cbv

theorem textChar_self {c : Char} (visible : 0x20 ≤ c.toNat) (noQuote : c ≠ '\x22')
    (noEscape : c ≠ '\\') : Takes textChar [c] c := by
  intro tail
  simp [textChar, noQuote, noEscape, Nat.not_lt.mpr visible]

theorem word_takes (spelling : String) {c : Char} {others : List Char} (meant : Value)
    (written : spelling.toList = c :: others) (visible : isSeparatingBlank c = false) :
    Takes (word spelling meant) spelling.toList meant := by
  intro tail
  have marked : mark? spelling (spelling.toList ++ tail) = some tail := by
    rw [mark_eq_some_iff, written, List.cons_append, skipBlanks_cons visible]
  rw [word, marked, Option.map_some]

section Start

variable {source rest : List Char} {c : Char} (start : skipBlanks source = c :: rest)

include start

theorem word_none {spelling : String} {first : Char} {others : List Char} (meant : Value)
    (written : spelling.toList = first :: others) (differs : first ≠ c) :
    word spelling meant source = none := by
  rw [word, mark_none start spelling written differs, Option.map_none]

theorem text_none (noQuote : '\x22' ≠ c) : text source = none := by
  simp [text, mark_none start "\"" rfl noQuote]

theorem number_none (noSign : '-' ≠ c) (noDigit : isAsciiDigit c = false) :
    number source = none := by
  simp [number, start, dropLeading?, noSign, noDigit]

theorem valueWith_of_mark (nested : Reader Value) (noNull : 'n' ≠ c) (noTrue : 't' ≠ c)
    (noFalse : 'f' ≠ c) :
    valueWith nested source =
      (((text source).map fun (content, rest) => (Value.string content, rest)).orElse fun _ =>
      (number source).orElse fun _ =>
      ((enclosed "[" "]" nested source).map fun (items, rest) => (Value.list items, rest)).orElse
        fun _ =>
      (enclosed "\x7b" "\x7d" (field nested) source).map fun (fields, rest) =>
        (Value.ofPairs fields, rest)) := by
  rw [valueWith, word_none start .null rfl noNull, word_none start (.boolean true) rfl noTrue,
    word_none start (.boolean false) rfl noFalse]
  rfl

end Start

section Values

variable {nested : Reader Value}

theorem valueWith_none {c : Char} (closer : endsNested c = true) (rest : List Char) :
    valueWith nested (c :: rest) = none := by
  have start := skipBlanks_cons (isSeparatingBlank_of_endsNested closer) rest
  have others : 'n' ≠ c ∧ 't' ≠ c ∧ 'f' ≠ c ∧ '\x22' ≠ c ∧ '-' ≠ c ∧ isAsciiDigit c = false ∧
      '[' ≠ c ∧ '\x7b' ≠ c := by
    rcases closer_cases closer with rfl | rfl | rfl <;> decide
  obtain ⟨noNull, noTrue, noFalse, noQuote, noSign, noDigit, noSquare, noCurly⟩ := others
  rw [valueWith_of_mark start nested noNull noTrue noFalse, text_none start noQuote,
    number_none start noSign noDigit, enclosed_none start squarePair noSquare,
    enclosed_none start curlyPair noCurly]
  rfl

theorem valueWith_null : Takes (valueWith nested) "null".toList .null := by
  intro tail
  simp only [valueWith, word_takes "null" .null rfl rfl tail, Option.orElse]

theorem valueWith_boolean (truth : Bool) :
    Takes (valueWith nested) (if truth then "true" else "false").toList (.boolean truth) := by
  intro tail
  cases truth with
  | true =>
    have noNull : word "null" .null ("true".toList ++ tail) = none := word_none rfl _ rfl (by decide)
    simp only [valueWith, if_true, noNull, word_takes "true" (.boolean true) rfl rfl tail,
      Option.orElse]
  | false =>
    have noNull : word "null" .null ("false".toList ++ tail) = none := word_none rfl _ rfl (by decide)
    have noTrue : word "true" (.boolean true) ("false".toList ++ tail) = none :=
      word_none rfl _ rfl (by decide)
    simp only [valueWith, Bool.false_eq_true, if_false, noNull, noTrue,
      word_takes "false" (.boolean false) rfl rfl tail, Option.orElse]

theorem valueWith_text {code : List Char} {content : String}
    (taken : Takes text ('\x22' :: code) content) :
    Takes (valueWith nested) ('\x22' :: code) (.string content) := by
  intro tail
  have read := taken tail
  rw [List.cons_append] at read ⊢
  rw [valueWith_of_mark rfl nested (by decide) (by decide) (by decide), read]
  rfl

theorem valueWith_list {code : List Char} {items : List Value}
    (taken : Takes (enclosed "[" "]" nested) ('[' :: code) items) :
    Takes (valueWith nested) ('[' :: code) (.list items) := by
  intro tail
  have read := taken tail
  rw [List.cons_append] at read ⊢
  rw [valueWith_of_mark rfl nested (by decide) (by decide) (by decide), text_none rfl (by decide),
    number_none rfl (by decide) rfl, read]
  rfl

theorem valueWith_record {code : List Char} {fields : List (String × Value)}
    (taken : Takes (enclosed "\x7b" "\x7d" (field nested)) ('\x7b' :: code) fields) :
    Takes (valueWith nested) ('\x7b' :: code) (.ofPairs fields) := by
  intro tail
  have read := taken tail
  rw [List.cons_append] at read ⊢
  rw [valueWith_of_mark rfl nested (by decide) (by decide) (by decide), text_none rfl (by decide),
    number_none rfl (by decide) rfl, enclosed_none rfl squarePair (by decide), read]
  rfl

theorem text_skip {blanks : List Char} (blank : blanks.all isSeparatingBlank = true)
    (source : List Char) : text (blanks ++ source) = text source := by
  simp only [text, mark_skip blank]

theorem field_skip {blanks : List Char} (blank : blanks.all isSeparatingBlank = true)
    (source : List Char) : field nested (blanks ++ source) = field nested source := by
  simp only [field, text_skip blank]

theorem valueWith_skip {blanks : List Char} (blank : blanks.all isSeparatingBlank = true)
    (source : List Char) : valueWith nested (blanks ++ source) = valueWith nested source := by
  simp only [valueWith, word, mark_skip blank, text_skip blank, number, enclosed,
    skipBlanks_blanks_append blank]

theorem field_takes {name : String} {nameCode code : List Char} {value : Value}
    (named : Takes text nameCode name) (read : Takes nested code value)
    (skips : ∀ source, nested (' ' :: source) = nested source) :
    Takes (field nested) (nameCode ++ ':' :: ' ' :: code) (name, value) := by
  intro tail
  have colon := mark_self ":" ':' rfl rfl (' ' :: (code ++ tail))
  have split : nameCode ++ ':' :: ' ' :: code ++ tail = nameCode ++ (':' :: ' ' :: (code ++ tail)) := by
    simp
  simp [field, split, named (':' :: ' ' :: (code ++ tail)), colon, skips, read tail]

theorem field_none {c : Char} (closer : endsNested c = true) (rest : List Char) :
    field nested (c :: rest) = none := by
  have start := skipBlanks_cons (isSeparatingBlank_of_endsNested closer) rest
  have noQuote : '\x22' ≠ c := by rcases closer_cases closer with rfl | rfl | rfl <;> decide
  rw [field, text_none start noQuote]
  rfl

theorem empty_takes {α : Type} {reader : Reader α} {opening closing : String} {opener closer : Char}
    (pair : IsBracketPair opening closing opener closer)
    (refuses : ∀ tail, reader (closer :: tail) = none) :
    Takes (enclosed opening closing reader) [opener, closer] [] := by
  intro tail
  have opened := mark_self _ _ pair.openingText (isSeparatingBlank_of_opening pair.belongs)
    (closer :: tail)
  have closed := mark_self _ _ pair.closingText (isSeparatingBlank_of_endsNested pair.ends) tail
  simp [enclosed, opened, separated, refuses, closed]

end Values

theorem valueIn_none (depth : Nat) {c : Char} (closer : endsNested c = true) (rest : List Char) :
    valueIn depth (c :: rest) = none := by
  cases depth with
  | zero => rfl
  | succ depth => exact valueWith_none closer rest

theorem valueIn_skip (depth : Nat) (blanks source : List Char)
    (blank : blanks.all isSeparatingBlank = true) :
    valueIn depth (blanks ++ source) = valueIn depth source := by
  cases depth with
  | zero => rfl
  | succ depth => exact valueWith_skip blank source

end Templating.Data.Json
