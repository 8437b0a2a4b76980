import Mathlib.Data.List.Forall2
import Templating.Proofs.Grammar.Compound
import Templating.Proofs.Translation.Meaning
/-!
# Captured code where it is written

Code that is balanced and has a meaning keeps it among other source.  The text
of a list of entries is read as these entries.
-/
set_option autoImplicit false

namespace Templating.Rendering

open Templating.Text Templating.Template Templating.Expression Templating.Expression.Grammar
open Templating.Data

/-- The code is balanced and can be read. -/
def readsAlone (code : String) : Bool :=
  (imbalance? code).isNone && (parseExpression? code).isSome

/-- Captured code is read where it is written as it is read alone. -/
theorem captured_reads {code : String} (reads : readsAlone code = true) :
    Reads expression endsListener code.toList (captured code) := by
  simp only [readsAlone, Bool.and_eq_true, Option.isNone_iff_eq_none] at reads
  obtain ⟨balanced, parsed⟩ := reads
  obtain ⟨result, found⟩ := Option.isSome_iff_exists.mp parsed
  obtain ⟨rest, read, blank⟩ := (whole_eq_some_iff expression code result).mp found
  intro d tail ends
  have before := (expression_before (isTail_cons ends tail) balanced).append
  refine ⟨rest, blank, ?_⟩
  rw [before, read, captured, found]
  rfl

theorem parsePattern_reads {name : String} {result : Pattern}
    (parsed : parsePattern? name = some result) :
    Reads pattern endsListener name.toList result := by
  obtain ⟨rest, read, blank⟩ := (whole_eq_some_iff pattern name result).mp parsed
  have balanced : Closes [] name.toList := by
    rw [closes_pattern_iff read, ← closes_skipBlanks_iff]
    have empty := skipBlanks_isEmpty rest
    rw [blank, List.isEmpty_iff] at empty
    rw [empty, closes_nil_iff]
  intro d tail ends
  have before := (pattern_before (isTail_cons ends tail) balanced).append
  refine ⟨rest, blank, ?_⟩
  rw [before, read]
  rfl

/-! ## Texts of lists -/

theorem join_cons_toList (first : String) (others : List String) :
    (join "," (first :: others)).toList =
      first.toList ++ commaTail (others.map String.toList) := by
  induction others generalizing first with
  | nil => simp [join, commaTail]
  | cons second others ih => simp [join, ih, commaTail]

theorem join_toList (codes : List String) :
    (join "," codes).toList = commaList (codes.map String.toList) := by
  cases codes with
  | nil => rfl
  | cons first others => exact join_cons_toList first others

theorem braced_toList (entries : List String) :
    (braced entries).toList = '\x7b' :: commaList (entries.map String.toList) ++ ['\x7d'] := by
  simp [braced, join_toList]

theorem forall₂_map {α γ : Type} (holds : List Char → γ → Prop) (code : α → String) (value : α → γ)
    {items : List α} (each : ∀ item ∈ items, holds (code item).toList (value item)) :
    List.Forall₂ holds ((items.map code).map String.toList) (items.map value) := by
  induction items with
  | nil => exact .nil
  | cons item others ih =>
    exact .cons (each item List.mem_cons_self) (ih fun other held =>
      each other (List.mem_cons_of_mem item held))

/-! ## Entries -/

abbrev EntryReads (code : List Char) (entry : Field) : Prop :=
  Reads (entryWith expression) endsListener code entry

/-- The text holds the fields, each with a comma behind it. -/
def FieldsRead (fields : String) (entries : List Field) : Prop :=
  ∃ codes : List (List Char), fields.toList = codes.flatMap (fun code => code ++ [',']) ∧
    List.Forall₂ EntryReads codes entries

theorem FieldsRead.none : FieldsRead "" [] := ⟨[], rfl, .nil⟩

theorem FieldsRead.append {first second : String} {firstEntries secondEntries : List Field}
    (start : FieldsRead first firstEntries) (behind : FieldsRead second secondEntries) :
    FieldsRead (first ++ second) (firstEntries ++ secondEntries) := by
  obtain ⟨firstCodes, firstText, firstRead⟩ := start
  obtain ⟨secondCodes, secondText, secondRead⟩ := behind
  exact ⟨firstCodes ++ secondCodes, by simp [firstText, secondText], List.rel_append firstRead secondRead⟩

def isFieldName (name : String) : Bool :=
  isIdentifier name.toList && name != "on" && name != "nativeOn"

theorem namedField_reads {name : String} {code : List Char} {value : Expr}
    (named : isFieldName name = true) (reads : Reads expression endsListener code value) :
    EntryReads (name.toList ++ ':' :: code) (namedField name value) := by
  simp only [isFieldName, Bool.and_eq_true, bne_iff_ne, ne_eq] at named
  obtain ⟨⟨identifier, noOn⟩, noNative⟩ := named
  have key := KeyReads.ofName identifier (by simpa using noOn) (by simpa using noNative)
  rw [String.ofList_toList] at key
  exact key.entry reads

theorem FieldsRead.single (name code : String) {value : Expr} (named : isFieldName name = true)
    (reads : Reads expression endsListener code.toList value) :
    FieldsRead (dataField name code) [namedField name value] :=
  ⟨[name.toList ++ ':' :: code.toList], by simp [dataField], .cons (namedField_reads named reads) .nil⟩

theorem FieldsRead.optional {condition : Bool} {fields : String} {entries : List Field}
    (reads : condition = false → FieldsRead fields entries) :
    FieldsRead (if condition then "" else fields) (if condition then [] else entries) := by
  cases condition with
  | false => exact reads rfl
  | true => exact .none

theorem dropTrailing_comma (source : List Char) :
    dropTrailing? [','] (source ++ [',']) = some source := by
  simp [dropTrailing?, dropLeading?]

theorem flatMap_comma (codes : List (List Char)) :
    codes.flatMap (fun code => code ++ [',']) =
      if codes.isEmpty then [] else commaList codes ++ [','] := by
  induction codes with
  | nil => rfl
  | cons code others ih =>
    rw [List.flatMap_cons, ih]
    cases others <;> simp [commaList, commaTail]

theorem withoutLastComma_toList {fields : String} {codes : List (List Char)}
    (text : fields.toList = codes.flatMap fun code => code ++ [',']) :
    (withoutLastComma fields).toList = commaList codes := by
  rw [flatMap_comma] at text
  cases codes with
  | nil => simp [withoutLastComma, text, dropTrailing?, dropLeading?, commaList]
  | cons code others => simp [withoutLastComma, text, dropTrailing_comma]

theorem FieldsRead.record {fields : String} {entries : List Field}
    (reads : FieldsRead fields entries) :
    ReadsOperand ('\x7b' :: (withoutLastComma fields).toList ++ ['\x7d']) (.record entries) := by
  obtain ⟨codes, text, items⟩ := reads
  rw [withoutLastComma_toList text]
  exact record_operand items

theorem FieldsRead.isEmpty {fields : String} {entries : List Field}
    (reads : FieldsRead fields entries) :
    (withoutLastComma fields).toList = [] ↔ entries = [] := by
  obtain ⟨codes, text, items⟩ := reads
  rw [withoutLastComma_toList text]
  cases items with
  | nil => simp [commaList]
  | @cons code entry codes entries item items =>
    have given : code ≠ [] := by
      rintro rfl
      obtain ⟨blanks, -, read⟩ := item ',' [] rfl
      rw [List.nil_append, entry_none (by decide)] at read
      cases read
    simp [commaList, given]

end Templating.Rendering
