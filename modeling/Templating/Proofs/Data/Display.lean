import Templating.Proofs.Data.Dictionary
import Templating.Proofs.Data.Json
/-!
# Containers are shown as JSON

A list or object is shown as a JSON text of its layout: every entry on a line of
its own.  Texts are escaped only as far as quotes, backslashes and line ends go,
and names are not escaped, so the text is read back as the value where nothing
else has to be escaped.
-/
set_option autoImplicit false

namespace Templating.Data

open Templating.Text Templating.Expression Templating.Expression.Grammar

namespace Value

/-! ## Values that can be read back -/

mutual

/-- Every value inside that is no container passes `leaf`, and the names of every
object pass `names`. -/
def every (leaf : Value → Bool) (names : List String → Bool) : Value → Bool
  | .list items => everyItem leaf names items
  | .record fields => names (fields.map Prod.fst) && everyField leaf names fields
  | value => leaf value

def everyItem (leaf : Value → Bool) (names : List String → Bool) : List Value → Bool
  | [] => true
  | item :: rest => every leaf names item && everyItem leaf names rest

def everyField (leaf : Value → Bool) (names : List String → Bool) : List (String × Value) → Bool
  | [] => true
  | (_, item) :: rest => every leaf names item && everyField leaf names rest

end

def isShownChar (c : Char) : Bool := 0x20 ≤ c.toNat || c == '\n'

def isBareChar (c : Char) : Bool := 0x20 ≤ c.toNat && c != '\x22' && c != '\\'

def isShownLeaf : Value → Bool
  | .string content => content.toList.all isShownChar
  | _ => true

def areBare (names : List String) : Bool := names.all fun name => name.toList.all isBareChar

/-- The texts in the value hold no control characters but line ends; the names of
its fields hold none, no quotes and no backslashes. -/
def isLegible (value : Value) : Bool := value.every isShownLeaf areBare

def isNumber : Value → Bool
  | .number _ => true
  | _ => false

def isNumberless (value : Value) : Bool := value.every (fun leaf => !leaf.isNumber) fun _ => true

def isUndefined : Value → Bool
  | .undefined => true
  | _ => false

def isDefined (value : Value) : Bool := value.every (fun leaf => !leaf.isUndefined) fun _ => true

def areAscending (names : List String) : Bool := decide (names.Pairwise (· < ·))

/-- The fields of all objects are in ascending order of their names, each once. -/
def isOrdered (value : Value) : Bool := value.every (fun _ => true) areAscending

def isContainer : Value → Bool
  | .list _ | .record _ => true
  | _ => false

mutual

/-- The value with `null` for all that is undefined in it. -/
def withNull : Value → Value
  | .undefined => .null
  | .list items => .list (withNullItems items)
  | .record fields => .record (withNullFields fields)
  | .null => .null
  | .boolean truth => .boolean truth
  | .number x => .number x
  | .string content => .string content

def withNullItems : List Value → List Value
  | [] => []
  | item :: rest => item.withNull :: withNullItems rest

def withNullFields : List (String × Value) → List (String × Value)
  | [] => []
  | (name, item) :: rest => (name, item.withNull) :: withNullFields rest

end

theorem names_withNullFields (fields : List (String × Value)) :
    (withNullFields fields).map Prod.fst = fields.map Prod.fst := by
  induction fields with
  | nil => rfl
  | cons field rest ih => rw [withNullFields, List.map_cons, List.map_cons, ih]

mutual

theorem withNull_of_isDefined (value : Value)
    (defined : value.every (fun leaf => !leaf.isUndefined) (fun _ => true) = true) :
    value.withNull = value := by
  match value with
  | .undefined => cases defined
  | .list items =>
    rw [withNull, withNullItems_of_isDefined items defined]
  | .record fields =>
    rw [every, Bool.true_and] at defined
    rw [withNull, withNullFields_of_isDefined fields defined]
  | .null | .boolean _ | .number _ | .string _ => rfl

theorem withNullItems_of_isDefined (items : List Value)
    (defined : everyItem (fun leaf => !leaf.isUndefined) (fun _ => true) items = true) :
    withNullItems items = items := by
  match items with
  | [] => rfl
  | item :: rest =>
    rw [everyItem, Bool.and_eq_true] at defined
    rw [withNullItems, withNull_of_isDefined item defined.1, withNullItems_of_isDefined rest defined.2]

theorem withNullFields_of_isDefined (fields : List (String × Value))
    (defined : everyField (fun leaf => !leaf.isUndefined) (fun _ => true) fields = true) :
    withNullFields fields = fields := by
  match fields with
  | [] => rfl
  | (name, item) :: rest =>
    rw [everyField, Bool.and_eq_true] at defined
    rw [withNullFields, withNull_of_isDefined item defined.1,
      withNullFields_of_isDefined rest defined.2]

end

/-! ## Layout -/

def rows (depth : Nat) : List String → String
  | [] => ""
  | entry :: rest =>
    indentation depth ++ entry ++ (if rest.isEmpty then "\n" else ",\n") ++ rows depth rest

def fieldText (depth : Nat) (field : String × Value) : String :=
  "\"" ++ field.1 ++ "\": " ++ structured depth field.2

theorem structuredItems_eq (depth : Nat) (items : List Value) :
    structuredItems depth items = rows depth (items.map (structured depth)) := by
  induction items with
  | nil => rfl
  | cons item rest ih => rw [structuredItems, List.map_cons, rows, List.isEmpty_map, ih]

theorem structuredFields_eq (depth : Nat) (fields : List (String × Value)) :
    structuredFields depth fields = rows depth (fields.map (fieldText depth)) := by
  induction fields with
  | nil => rfl
  | cons field rest ih =>
    rw [structuredFields, List.map_cons, rows, List.isEmpty_map, ih, fieldText]
    simp only [String.append_assoc]

theorem structured_list (depth : Nat) (item : Value) (rest : List Value) :
    (structured depth (.list (item :: rest))).toList =
      '[' :: '\n' :: ((rows (depth + 1) ((item :: rest).map (structured (depth + 1)))).toList ++
        (indentation depth).toList) ++ [']'] := by
  simp [structured, structuredItems_eq]

theorem structured_record (depth : Nat) (field : String × Value) (rest : List (String × Value)) :
    (structured depth (.record (field :: rest))).toList =
      '\x7b' :: '\n' :: ((rows (depth + 1) ((field :: rest).map (fieldText (depth + 1)))).toList ++
        (indentation depth).toList) ++ ['\x7d'] := by
  simp [structured, structuredFields_eq]

theorem length_le_rows (depth : Nat) {entries : List String} {entry : String}
    (held : entry ∈ entries) : entry.toList.length ≤ (rows depth entries).toList.length := by
  induction entries with
  | nil => cases held
  | cons first rest ih =>
    simp only [rows, String.toList_append, List.length_append]
    rcases List.mem_cons.mp held with rfl | held
    · omega
    · have inside := ih held
      omega

/-- The code of each entry with the blanks before it, and those behind the last. -/
def rowCodes (before behind : List Char) : List String → List (List Char)
  | [] => []
  | [entry] => [before ++ entry.toList ++ behind]
  | entry :: next :: rest => (before ++ entry.toList) :: rowCodes before behind (next :: rest)

theorem commaTail_eq {codes : List (List Char)} (given : codes ≠ []) :
    commaTail codes = ',' :: commaList codes := by
  cases codes with
  | nil => exact absurd rfl given
  | cons code rest => simp [commaTail, commaList]

theorem rowCodes_ne_nil (before behind : List Char) (entry : String) (rest : List String) :
    rowCodes before behind (entry :: rest) ≠ [] := by
  cases rest <;> simp [rowCodes]

theorem rows_toList (depth outer : Nat) (entry : String) (rest : List String) :
    '\n' :: ((rows depth (entry :: rest)).toList ++ (indentation outer).toList) =
      commaList (rowCodes ('\n' :: (indentation depth).toList) ('\n' :: (indentation outer).toList)
        (entry :: rest)) := by
  induction rest generalizing entry with
  | nil => simp [rows, rowCodes, commaList, commaTail]
  | cons next rest ih =>
    rw [rowCodes, commaList, commaTail_eq (rowCodes_ne_nil _ _ _ _), ← ih, rows]
    simp

theorem repeated_toList_blank (count : Nat) :
    (repeated "  " count).toList.all isSeparatingBlank = true := by
  induction count with
  | zero => rfl
  | succ count ih => simp [repeated, ih, isSeparatingBlank]

theorem lineStart_blank (depth : Nat) :
    ('\n' :: (indentation depth).toList).all isSeparatingBlank = true := by
  rw [List.all_cons, indentation, repeated_toList_blank]
  rfl

section Rows

variable {α : Type} {reader : Reader α}
  (skips : ∀ blanks source, blanks.all isSeparatingBlank = true →
    reader (blanks ++ source) = reader source)

include skips

theorem rowCodes_read {before behind : List Char} (blank : before.all isSeparatingBlank = true)
    (blankBehind : behind.all isSeparatingBlank = true) {entries : List String} {results : List α}
    (taken : List.Forall₂ (fun entry result => Json.Takes reader entry.toList result) entries results) :
    List.Forall₂ (Reads reader endsListener) (rowCodes before behind entries) results := by
  induction taken with
  | nil => exact .nil
  | @cons entry result rest others here there ih =>
    cases there with
    | nil =>
      refine .cons (fun d tail _ => ⟨behind, blankBehind, ?_⟩) .nil
      rw [List.append_assoc, List.append_assoc, skips before _ blank, here]
    | cons _ _ =>
      refine .cons (fun d tail _ => ⟨[], rfl, ?_⟩) ih
      rw [List.append_assoc, skips before _ blank, here]
      rfl

theorem rows_take {opening closing : String} {opener closer : Char}
    (pair : IsBracketPair opening closing opener closer) (shortens : Shortens reader)
    (refuses : ∀ tail, reader (closer :: tail) = none) (depth outer : Nat) {entry : String}
    {entries : List String} {results : List α}
    (taken : List.Forall₂ (fun entry result => Json.Takes reader entry.toList result)
      (entry :: entries) results) :
    Json.Takes (enclosed opening closing reader)
      (opener :: '\n' :: ((rows depth (entry :: entries)).toList ++ (indentation outer).toList) ++
        [closer]) results := by
  intro tail
  have items := rowCodes_read skips (lineStart_blank depth) (lineStart_blank outer) taken
  have read := enclosed_reads pair shortens refuses items tail
  rw [← rows_toList] at read
  rw [← read]
  simp

end Rows

/-! ## Reading back -/

theorem quotedChar_takes {c : Char} (shown : isShownChar c = true) :
    Json.Takes Json.textChar (quotedChar c) c := by
  intro tail
  simp only [isShownChar, Bool.or_eq_true, decide_eq_true_eq, beq_iff_eq] at shown
  by_cases quote : c = '\x22'
  · subst quote
    rfl
  by_cases escape : c = '\\'
  · subst escape
    rfl
  by_cases lineEnd : c = '\n'
  · subst lineEnd
    rfl
  · have visible := shown.resolve_right lineEnd
    have plain : quotedChar c = [c] := by simp [quotedChar, quote, escape, lineEnd]
    rw [plain]
    exact Json.textChar_self visible quote escape tail

theorem quoted_takes {content : String} (shown : content.toList.all isShownChar = true) :
    Json.Takes Json.text (quoted content).toList content := by
  have taken := Json.text_takes fun c held => quotedChar_takes (List.all_eq_true.mp shown c held)
  rw [String.ofList_toList] at taken
  simpa [quoted] using taken

theorem name_takes {name : String} (bare : name.toList.all isBareChar = true) :
    Json.Takes Json.text ("\"" ++ name ++ "\"").toList name := by
  have each : ∀ c ∈ name.toList, Json.Takes Json.textChar [c] c := by
    intro c held
    have plain := List.all_eq_true.mp bare c held
    simp only [isBareChar, Bool.and_eq_true, decide_eq_true_eq, bne_iff_ne, ne_eq] at plain
    exact Json.textChar_self plain.1.1 plain.1.2 plain.2
  have taken := Json.text_takes each
  rw [String.ofList_toList] at taken
  simpa using taken

theorem fieldText_takes {reader : Reader Value} {name : String} {item result : Value} {depth : Nat}
    (skips : ∀ blanks source, blanks.all isSeparatingBlank = true →
      reader (blanks ++ source) = reader source)
    (bare : name.toList.all isBareChar = true)
    (taken : Json.Takes reader (structured depth item).toList result) :
    Json.Takes (Json.field reader) (fieldText depth (name, item)).toList (name, result) := by
  have field := Json.field_takes (name_takes bare) taken fun source => skips [' '] source rfl
  simpa [fieldText] using field

theorem ofPairs_ordered {fields : List (String × Value)}
    (ordered : areAscending (fields.map Prod.fst) = true) : ofPairs fields = .record fields := by
  have sorted : Dictionary.Sorted fields := List.pairwise_map.mp (of_decide_eq_true ordered)
  have same : Dictionary.ofPairs fields = fields := by
    refine (Dictionary.sorted_ofPairs fields).ext sorted fun name => ?_
    rw [Dictionary.find_ofPairs, Dictionary.lookup_reverse sorted.names_nodup,
      Dictionary.find_eq_lookup]
  rw [ofPairs, same]

mutual

theorem structured_takes (value : Value) (depth fuel : Nat)
    (enough : (structured depth value).toList.length < fuel) (legible : value.isLegible = true)
    (numberless : value.isNumberless = true) (ordered : value.isOrdered = true) :
    Json.Takes (Json.valueIn fuel) (structured depth value).toList value.withNull := by
  match fuel, value with
  | 0, _ => exact absurd enough (Nat.not_lt_zero _)
  | _ + 1, .undefined => exact Json.valueWith_null
  | _ + 1, .null => exact Json.valueWith_null
  | _ + 1, .boolean truth => exact Json.valueWith_boolean truth
  | _ + 1, .number _ => cases numberless
  | _ + 1, .string content =>
    have taken : Json.Takes Json.text (quoted content).toList content := quoted_takes legible
    simp only [quoted, String.toList_ofList] at taken
    simp only [structured, quoted, String.toList_ofList]
    exact Json.valueWith_text taken
  | fuel + 1, .list [] =>
    have empty : (structured depth (.list [])).toList = ['[', ']'] := by simp [structured]
    rw [empty]
    exact Json.valueWith_list (Json.empty_takes squarePair (Json.valueIn_none fuel rfl))
  | fuel + 1, .list (item :: rest) =>
    rw [structured_list] at enough ⊢
    have bound (entry : Value) (held : entry ∈ item :: rest) :
        (structured (depth + 1) entry).toList.length < fuel := by
      have inside := length_le_rows (depth + 1) (List.mem_map_of_mem (f := structured (depth + 1)) held)
      simp only [List.length_cons, List.length_append] at enough
      omega
    have taken := structuredItems_take (item :: rest) (depth + 1) fuel bound legible numberless ordered
    exact Json.valueWith_list (rows_take (Json.valueIn_skip fuel) squarePair
      (Json.valueIn_shortens fuel) (Json.valueIn_none fuel rfl) (depth + 1) depth taken)
  | fuel + 1, .record [] =>
    have empty : (structured depth (.record [])).toList = ['\x7b', '\x7d'] := by simp [structured]
    rw [empty]
    exact Json.valueWith_record (Json.empty_takes curlyPair (Json.field_none rfl))
  | fuel + 1, .record (field :: rest) =>
    rw [structured_record] at enough ⊢
    have bound (entry : String × Value) (held : entry ∈ field :: rest) :
        (fieldText (depth + 1) entry).toList.length < fuel := by
      have inside := length_le_rows (depth + 1) (List.mem_map_of_mem (f := fieldText (depth + 1)) held)
      simp only [List.length_cons, List.length_append] at enough
      omega
    rw [isLegible, every, Bool.and_eq_true] at legible
    rw [isOrdered, every, Bool.and_eq_true] at ordered
    have taken := structuredFields_take (field :: rest) (depth + 1) fuel bound legible.1 legible.2
      numberless ordered.2
    have read := Json.valueWith_record (rows_take (fun _ source blank => Json.field_skip blank source) curlyPair
      (Json.field_shortens (Json.valueIn_shortens fuel)) (Json.field_none rfl) (depth + 1) depth taken)
    rwa [ofPairs_ordered (by rw [names_withNullFields]; exact ordered.1)] at read

theorem structuredItems_take (items : List Value) (depth fuel : Nat)
    (enough : ∀ item ∈ items, (structured depth item).toList.length < fuel)
    (legible : everyItem isShownLeaf areBare items = true)
    (numberless : everyItem (fun leaf => !leaf.isNumber) (fun _ => true) items = true)
    (ordered : everyItem (fun _ => true) areAscending items = true) :
    List.Forall₂ (fun entry result => Json.Takes (Json.valueIn fuel) entry.toList result)
      (items.map (structured depth)) (withNullItems items) := by
  match items with
  | [] => exact .nil
  | item :: rest =>
    rw [everyItem, Bool.and_eq_true] at legible numberless ordered
    refine .cons ?_ ?_
    · exact structured_takes item depth fuel (enough item List.mem_cons_self) legible.1 numberless.1
        ordered.1
    · exact structuredItems_take rest depth fuel
        (fun other held => enough other (List.mem_cons_of_mem item held)) legible.2 numberless.2
        ordered.2

theorem structuredFields_take (fields : List (String × Value)) (depth fuel : Nat)
    (enough : ∀ field ∈ fields, (fieldText depth field).toList.length < fuel)
    (bare : areBare (fields.map Prod.fst) = true) (legible : everyField isShownLeaf areBare fields = true)
    (numberless : everyField (fun leaf => !leaf.isNumber) (fun _ => true) fields = true)
    (ordered : everyField (fun _ => true) areAscending fields = true) :
    List.Forall₂ (fun entry result => Json.Takes (Json.field (Json.valueIn fuel)) entry.toList result)
      (fields.map (fieldText depth)) (withNullFields fields) := by
  match fields with
  | [] => exact .nil
  | (name, item) :: rest =>
    rw [everyField, Bool.and_eq_true] at legible numberless ordered
    rw [areBare, List.map_cons, List.all_cons, Bool.and_eq_true] at bare
    have bound := enough (name, item) List.mem_cons_self
    simp only [fieldText, String.toList_append, List.length_append] at bound
    refine .cons (fieldText_takes (Json.valueIn_skip fuel) bare.1 ?_) ?_
    · exact structured_takes item depth fuel (by omega) legible.1 numberless.1 ordered.1
    · exact structuredFields_take rest depth fuel
        (fun other held => enough other (List.mem_cons_of_mem _ held)) bare.2 legible.2 numberless.2
        ordered.2

end

theorem read_structured {value : Value} (legible : value.isLegible = true)
    (numberless : value.isNumberless = true) (ordered : value.isOrdered = true) :
    Json.read? (structured 0 value) = some value.withNull := by
  have taken := structured_takes value 0 ((structured 0 value).toList.length + 1)
    (Nat.lt_succ_self _) legible numberless ordered []
  rw [List.append_nil] at taken
  simp [Json.read?, whole?, Json.value, taken, skipBlanks]

theorem shown_of_isContainer {value : Value} (container : value.isContainer = true) :
    value.shown = structured 0 value := by
  cases value with
  | list _ | record _ => rfl
  | undefined | null | boolean _ | number _ | string _ => cases container

/-- A container is shown as a JSON text that stands for it, with `null` for what is
undefined; so containers in which nothing is undefined are shown alike only if
they are the same. -/
structure IsShownAsJson (value : Value) : Prop where
  reads : Json.read? value.shown = some value.withNull
  distinct : ∀ other : Value, other.isContainer = true → other.isLegible = true →
    other.isNumberless = true → other.isOrdered = true → value.isDefined = true →
    other.isDefined = true → value.shown = other.shown → value = other

/-- Containers without numbers are shown as JSON where quotes, backslashes and line
ends in texts are all that has to be escaped. -/
theorem container_isShownAsJson {value : Value} (container : value.isContainer = true)
    (legible : value.isLegible = true) (numberless : value.isNumberless = true)
    (ordered : value.isOrdered = true) : IsShownAsJson value := by
  have reads : Json.read? value.shown = some value.withNull := by
    rw [shown_of_isContainer container]
    exact read_structured legible numberless ordered
  refine ⟨reads, fun other containerToo legibleToo numberlessToo orderedToo defined definedToo same => ?_⟩
  have readsToo := read_structured legibleToo numberlessToo orderedToo
  rw [← shown_of_isContainer containerToo, ← same, reads, withNull_of_isDefined value defined,
    withNull_of_isDefined other definedToo] at readsToo
  exact Option.some.inj readsToo

def nestedSample : Value :=
  .record [("a", .list [.string "\"x\"\\\ny", .undefined, .list [], .record []]),
    ("b b", .record [("c", .boolean true), ("d", .list [.null])])]

theorem nestedSample_isShownAsJson :
    nestedSample.isContainer = true ∧ nestedSample.isLegible = true ∧
      nestedSample.isNumberless = true ∧ nestedSample.isOrdered = true ∧ IsShownAsJson nestedSample :=
  have legible : nestedSample.isLegible = true := by decide
  have ordered : nestedSample.isOrdered = true := by decide
  ⟨rfl, legible, rfl, ordered, container_isShownAsJson rfl legible rfl ordered⟩

/-- Names are shown as they are, and of the control characters only line ends are
escaped: an object with one field is shown as one with two, and the text of a
container may be no JSON at all. -/
theorem rawName_isNotJson :
    (Value.record [("a\": null,\n  \"b", .null)]).shown =
        (Value.record [("a", .null), ("b", .null)]).shown ∧
      Value.record [("a\": null,\n  \"b", .null)] ≠ Value.record [("a", .null), ("b", .null)] ∧
      Json.read? (Value.record [("a\"b", .null)]).shown = none ∧
      Json.read? (Value.list [.string "\t"]).shown = none := by
  refine ⟨?_, ?_, ?_, ?_⟩
  · decide
  · intro same
    exact absurd (congrArg List.length (Value.record.inj same)) (by decide)
  · cbv
  · cbv

end Value

end Templating.Data
