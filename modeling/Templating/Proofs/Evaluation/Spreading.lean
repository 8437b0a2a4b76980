import Mathlib.Data.List.Induction
import Mathlib.Data.List.Nodup
import Templating.Evaluation.Construction
/-!
# Spreading an object overrides nothing

A data object keeps all its entries when an object is spread over it, each in its place.
Fields with a place of their own come behind the entries, all others behind the entries of the
bucket, and a name that is taken keeps its value.  One field keeps this, hence all fields do.
-/
set_option autoImplicit false

namespace Templating.Evaluation

open Templating.Text Templating.Data

abbrev Entries := List (String × Datum)

variable {bucket name : String} {value : Datum} {entries before after : Entries}

/-! ## What spreading may do -/

def bucketEntries (bucket : String) (entries : Entries) : Entries :=
  match entries.lookup bucket with
  | some (.record inner) => inner
  | _ => []

def HasBucket (bucket : String) (entries : Entries) : Prop :=
  ∀ held, entries.lookup bucket = some held → ∃ inner, held = .record inner

/-- Every entry stays in its place.  Others may come behind them, and behind the entries of the
bucket, which is the first entry of its name. -/
inductive InPlace (bucket : String) : Entries → Entries → Prop where
  | untouched (before added : Entries) : InPlace bucket before (before ++ added)
  | widened (front inner back gained added : Entries) (first : bucket ∉ front.map Prod.fst) :
    InPlace bucket (front ++ (bucket, .record inner) :: back)
      (front ++ (bucket, .record (inner ++ gained)) :: (back ++ added))

/-- The names that come in are new, each comes once, and all of them are allowed. -/
def NamesGrow (allowed : String → Prop) (before after : Entries) : Prop :=
  ∃ new : List String, after.map Prod.fst = before.map Prod.fst ++ new ∧ new.Nodup ∧
    ∀ name ∈ new, name ∉ before.map Prod.fst ∧ allowed name

/-- Fields with a place of their own may come behind all entries, and the bucket where another
field asks for it. -/
def MayEnter (bucket : String) (fields : List (String × Value)) (name : String) : Prop :=
  name ∈ ownFields ∧ name ∈ fields.map Prod.fst ∨
    name = bucket ∧ ∃ field ∈ fields, field.1 ∉ ownFields

def MayEnterBucket (fields : List (String × Value)) (name : String) : Prop :=
  name ∉ ownFields ∧ name ∈ fields.map Prod.fst

/-- `after` is `before` with the fields spread over it. -/
structure Spread (bucket : String) (fields : List (String × Value)) (before after : Entries) : Prop where
  inPlace : InPlace bucket before after
  /-- A field with a place of its own is there, with the value it had if it was there. -/
  own : ∀ name ∈ ownFields,
    after.lookup name = (before.lookup name).or ((fields.lookup name).map .plain)
  /-- Every other field is in the bucket, with the value it had if it was there. -/
  inner : ∀ name ∉ ownFields, (bucketEntries bucket after).lookup name =
    ((bucketEntries bucket before).lookup name).or ((fields.lookup name).map .plain)
  names : NamesGrow (MayEnter bucket fields) before after
  innerNames :
    NamesGrow (MayEnterBucket fields) (bucketEntries bucket before) (bucketEntries bucket after)

/-! ## Adding an entry -/

theorem hasEntry_iff : hasEntry name entries = true ↔ name ∈ entries.map Prod.fst := by
  rw [hasEntry, Option.isSome_iff_ne_none, ne_eq, List.lookup_eq_none_iff]
  simp

theorem addIfAbsent_append (name : String) (value : Datum) (entries : Entries) :
    ∃ added, addIfAbsent name value entries = entries ++ added := by
  unfold addIfAbsent
  split
  · exact ⟨[], (List.append_nil entries).symm⟩
  · exact ⟨[(name, value)], rfl⟩

theorem lookup_addIfAbsent (name : String) (value : Datum) (entries : Entries) (other : String) :
    (addIfAbsent name value entries).lookup other =
      (entries.lookup other).or (if other = name then some value else none) := by
  unfold addIfAbsent
  split
  · next held =>
    split
    · next same =>
      obtain ⟨found, there⟩ := Option.isSome_iff_exists.mp held
      rw [same, there, Option.some_or]
    · rw [Option.or_none]
  · rw [List.lookup_append, List.lookup_cons, List.lookup_nil]
    by_cases same : other = name
    · simp [same]
    · simp [same, beq_eq_false_iff_ne.mpr same]

theorem NamesGrow.refl (allowed : String → Prop) (entries : Entries) :
    NamesGrow allowed entries entries :=
  ⟨[], (List.append_nil _).symm, List.nodup_nil, nofun⟩

theorem NamesGrow.mono {allowed more : String → Prop} (grow : NamesGrow allowed before after)
    (weaker : ∀ name, allowed name → more name) : NamesGrow more before after := by
  obtain ⟨new, same, distinct, fresh⟩ := grow
  exact ⟨new, same, distinct, fun name held => ⟨(fresh name held).1, weaker name (fresh name held).2⟩⟩

theorem NamesGrow.addIfAbsent {allowed : String → Prop} (grow : NamesGrow allowed before after)
    (allows : allowed name) (value : Datum) :
    NamesGrow allowed before (addIfAbsent name value after) := by
  unfold Evaluation.addIfAbsent
  split
  · exact grow
  · next absent =>
    rw [hasEntry_iff] at absent
    obtain ⟨new, same, distinct, fresh⟩ := grow
    rw [same, List.mem_append, not_or] at absent
    refine ⟨new ++ [name], by simp [same], ?_, ?_⟩
    · exact List.nodup_append.mpr ⟨distinct, List.nodup_singleton name, by
        rintro other held _ single rfl
        exact absent.2 (List.mem_singleton.mp single ▸ held)⟩
    · intro other held
      rcases List.mem_append.mp held with held | single
      · exact fresh other held
      · rw [List.mem_singleton.mp single]
        exact ⟨absent.1, allows⟩

/-! ## Changing the bucket -/

section Change

variable (change : Datum → Datum)

theorem names_changeEntry (name : String) (entries : Entries) :
    (changeEntry name change entries).map Prod.fst = entries.map Prod.fst := by
  induction entries with
  | nil => rfl
  | cons entry rest ih =>
    obtain ⟨other, held⟩ := entry
    unfold changeEntry
    split
    · rfl
    · rw [List.map_cons, ih, List.map_cons]

theorem lookup_changeEntry (name other : String) (entries : Entries) :
    (changeEntry name change entries).lookup other =
      if other = name then (entries.lookup name).map change else entries.lookup other := by
  induction entries with
  | nil => simp [changeEntry]
  | cons entry rest ih =>
    obtain ⟨first, held⟩ := entry
    by_cases here : first = name
    · rw [changeEntry, if_pos here, here]
      by_cases asked : other = name
      · simp [asked]
      · simp [asked, List.lookup_cons, beq_eq_false_iff_ne.mpr asked]
    · simp only [changeEntry, if_neg here, List.lookup_cons, ih]
      by_cases asked : other = name
      · simp [asked, beq_eq_false_iff_ne.mpr (Ne.symm here)]
      · simp [asked]

theorem changeEntry_append (absent : name ∉ entries.map Prod.fst) (rest : Entries) :
    changeEntry name change (entries ++ rest) = entries ++ changeEntry name change rest := by
  induction entries with
  | nil => rfl
  | cons entry others ih =>
    obtain ⟨other, held⟩ := entry
    rw [List.map_cons, List.mem_cons, not_or] at absent
    rw [List.cons_append, changeEntry, if_neg (Ne.symm absent.1), ih absent.2, List.cons_append]

theorem changeEntry_first {front : Entries} (first : name ∉ front.map Prod.fst) (held : Datum)
    (back : Entries) :
    changeEntry name change (front ++ (name, held) :: back) = front ++ (name, change held) :: back := by
  rw [changeEntry_append change first, changeEntry, if_pos rfl]

end Change

/-! ## One field -/

theorem InPlace.append (kept : InPlace bucket before after) (more : Entries) :
    InPlace bucket before (after ++ more) := by
  cases kept with
  | untouched _ added =>
    rw [List.append_assoc]
    exact .untouched before (added ++ more)
  | widened front inner back gained added first =>
    rw [List.append_assoc, List.cons_append, List.append_assoc]
    exact .widened front inner back gained (added ++ more) first

theorem addToBucket_record (name : String) (value : Datum) (inner : Entries) :
    ∃ gained, addToBucket name value (.record inner) = .record (inner ++ gained) := by
  obtain ⟨gained, same⟩ := addIfAbsent_append name value inner
  exact ⟨gained, by rw [addToBucket, same]⟩

theorem InPlace.changeEntry (kept : InPlace bucket before after) (isMap : HasBucket bucket after)
    (name : String) (value : Datum) :
    InPlace bucket before (changeEntry bucket (addToBucket name value) after) := by
  cases kept with
  | untouched _ added =>
    -- A bucket that was there before is widened; one that has come in is not looked into.
    cases found : before.lookup bucket with
    | none =>
      have absent : bucket ∉ before.map Prod.fst := by
        rw [← hasEntry_iff, hasEntry, found]
        exact Bool.false_ne_true
      rw [changeEntry_append _ absent]
      exact .untouched before _
    | some held =>
      obtain ⟨inner, rfl⟩ := isMap held (by rw [List.lookup_append, found, Option.some_or])
      obtain ⟨front, back, rfl, others⟩ := List.lookup_eq_some_iff.mp found
      have first : bucket ∉ front.map Prod.fst := by
        intro named
        obtain ⟨entry, held, same⟩ := List.mem_map.mp named
        simpa [same] using others entry held
      obtain ⟨gained, same⟩ := addToBucket_record name value inner
      rw [List.append_assoc, List.cons_append, changeEntry_first _ first, same]
      exact .widened front inner back gained added first
  | widened front inner back gained added first =>
    obtain ⟨more, same⟩ := addToBucket_record name value (inner ++ gained)
    rw [changeEntry_first _ first, same, List.append_assoc]
    exact .widened front inner back (gained ++ more) added first

section Field

variable {field : String × Value}

theorem spreadField_own (own : field.1 ∈ ownFields) (entries : Entries) :
    spreadField bucket entries field = addIfAbsent field.1 (.plain field.2) entries := by
  rw [spreadField, if_pos (List.contains_iff_mem.mpr own)]

theorem spreadField_other (other : field.1 ∉ ownFields) (entries : Entries) :
    spreadField bucket entries field =
      changeEntry bucket (addToBucket field.1 (.plain field.2))
        (addIfAbsent bucket (.record []) entries) := by
  rw [spreadField, if_neg fun listed => other (List.contains_iff_mem.mp listed)]

theorem lookup_spreadField_bucket (other : field.1 ∉ ownFields) (isMap : HasBucket bucket entries) :
    (spreadField bucket entries field).lookup bucket =
      some (.record (addIfAbsent field.1 (.plain field.2) (bucketEntries bucket entries))) := by
  rw [spreadField_other other, lookup_changeEntry, if_pos rfl, lookup_addIfAbsent, if_pos rfl]
  cases found : entries.lookup bucket with
  | none => simp [addToBucket, bucketEntries, found]
  | some held =>
    obtain ⟨inner, rfl⟩ := isMap held found
    simp [addToBucket, bucketEntries, found]

theorem plain_lookup_concat (fields : List (String × Value)) (field : String × Value) (name : String) :
    ((fields ++ [field]).lookup name).map Datum.plain =
      ((fields.lookup name).map .plain).or
        (if name = field.1 then some (.plain field.2) else none) := by
  rw [List.lookup_append, Option.map_or, List.lookup_cons, List.lookup_nil]
  by_cases same : name = field.1
  · simp [same]
  · simp [same, beq_eq_false_iff_ne.mpr same]

theorem Spread.inPlace_concat {fields : List (String × Value)}
    (spread : Spread bucket fields before after) (isMap : HasBucket bucket after) :
    InPlace bucket before (spreadField bucket after field) := by
  by_cases own : field.1 ∈ ownFields
  · obtain ⟨added, same⟩ := addIfAbsent_append field.1 (.plain field.2) after
    rw [spreadField_own own, same]
    exact spread.inPlace.append added
  · -- An empty bucket comes in behind the entries where there was none, and is then filled.
    obtain ⟨added, same⟩ := addIfAbsent_append bucket (.record []) after
    have opened : HasBucket bucket (after ++ added) := by
      intro held found
      rw [← same, lookup_addIfAbsent, if_pos rfl] at found
      cases there : after.lookup bucket with
      | none =>
        rw [there] at found
        cases found
        exact ⟨[], rfl⟩
      | some kept =>
        rw [there] at found
        cases found
        exact isMap held there
    rw [spreadField_other own, same]
    exact (spread.inPlace.append added).changeEntry opened field.1 (.plain field.2)

theorem Spread.names_concat {fields : List (String × Value)}
    (spread : Spread bucket fields before after) :
    NamesGrow (MayEnter bucket (fields ++ [field])) before (spreadField bucket after field) := by
  have grow : NamesGrow (MayEnter bucket (fields ++ [field])) before after := by
    refine spread.names.mono fun name enters => ?_
    rcases enters with ⟨own, held⟩ | ⟨same, other, held, place⟩
    · exact .inl ⟨own, by simp [held]⟩
    · exact .inr ⟨same, other, List.mem_append_left _ held, place⟩
  by_cases own : field.1 ∈ ownFields
  · rw [spreadField_own own]
    exact grow.addIfAbsent (.inl ⟨own, by simp⟩) _
  · obtain ⟨new, same, fresh⟩ := grow.addIfAbsent (.inr ⟨rfl, field, by simp, own⟩) (.record [])
    rw [spreadField_other own]
    exact ⟨new, by rw [names_changeEntry, same], fresh⟩

variable (apart : bucket ∉ ownFields)

include apart

theorem lookup_spreadField_own (own : field.1 ∈ ownFields) :
    (spreadField bucket entries field).lookup bucket = entries.lookup bucket := by
  have differs : bucket ≠ field.1 := by
    rintro rfl
    exact apart own
  rw [spreadField_own own, lookup_addIfAbsent, if_neg differs, Option.or_none]

theorem HasBucket.spreadField (isMap : HasBucket bucket entries) :
    HasBucket bucket (spreadField bucket entries field) := by
  intro held found
  by_cases own : field.1 ∈ ownFields
  · rw [lookup_spreadField_own apart own] at found
    exact isMap held found
  · rw [lookup_spreadField_bucket own isMap] at found
    cases found
    exact ⟨_, rfl⟩

theorem bucketEntries_spreadField (isMap : HasBucket bucket entries) :
    bucketEntries bucket (spreadField bucket entries field) =
      if field.1 ∈ ownFields then bucketEntries bucket entries
      else addIfAbsent field.1 (.plain field.2) (bucketEntries bucket entries) := by
  split
  · next own => rw [bucketEntries, lookup_spreadField_own apart own, bucketEntries]
  · next other => rw [bucketEntries, lookup_spreadField_bucket other isMap]

section Concat

variable {fields : List (String × Value)} (spread : Spread bucket fields before after)

include spread

theorem Spread.own_concat (own : name ∈ ownFields) :
    (spreadField bucket after field).lookup name =
      (before.lookup name).or (((fields ++ [field]).lookup name).map .plain) := by
  rw [plain_lookup_concat, ← Option.or_assoc, ← spread.own name own]
  by_cases place : field.1 ∈ ownFields
  · rw [spreadField_own place, lookup_addIfAbsent]
  · have noField : name ≠ field.1 := by
      rintro rfl
      exact place own
    have noBucket : name ≠ bucket := by
      rintro rfl
      exact apart own
    rw [spreadField_other place, lookup_changeEntry, if_neg noBucket, lookup_addIfAbsent,
      if_neg noBucket, if_neg noField]

theorem Spread.inner_concat (isMap : HasBucket bucket after) (other : name ∉ ownFields) :
    (bucketEntries bucket (spreadField bucket after field)).lookup name =
      ((bucketEntries bucket before).lookup name).or
        (((fields ++ [field]).lookup name).map .plain) := by
  rw [plain_lookup_concat, ← Option.or_assoc, ← spread.inner name other,
    bucketEntries_spreadField apart isMap]
  split
  · next own =>
    have noField : name ≠ field.1 := by
      rintro rfl
      exact other own
    rw [if_neg noField, Option.or_none]
  · rw [lookup_addIfAbsent]

theorem Spread.innerNames_concat (isMap : HasBucket bucket after) :
    NamesGrow (MayEnterBucket (fields ++ [field])) (bucketEntries bucket before)
      (bucketEntries bucket (spreadField bucket after field)) := by
  have grow : NamesGrow (MayEnterBucket (fields ++ [field])) (bucketEntries bucket before)
      (bucketEntries bucket after) :=
    spread.innerNames.mono fun name enters => ⟨enters.1, by simp [enters.2]⟩
  rw [bucketEntries_spreadField apart isMap]
  split
  · exact grow
  · next other => exact grow.addIfAbsent ⟨other, by simp⟩ _

theorem Spread.concat (isMap : HasBucket bucket after) (field : String × Value) :
    Spread bucket (fields ++ [field]) before (spreadField bucket after field) where
  inPlace := spread.inPlace_concat isMap
  own := fun _ own => spread.own_concat apart own
  inner := fun _ other => spread.inner_concat apart isMap other
  names := spread.names_concat
  innerNames := spread.innerNames_concat apart isMap

end Concat

end Field

/-! ## All fields -/

theorem Spread.none (bucket : String) (entries : Entries) : Spread bucket [] entries entries where
  inPlace := by
    have untouched := @InPlace.untouched bucket entries []
    rwa [List.append_nil] at untouched
  own := fun name _ => by rw [List.lookup_nil, Option.map_none, Option.or_none]
  inner := fun name _ => by rw [List.lookup_nil, Option.map_none, Option.or_none]
  names := .refl _ entries
  innerNames := .refl _ _

theorem spread_fields (apart : bucket ∉ ownFields) (isMap : HasBucket bucket entries)
    (fields : List (String × Value)) :
    Spread bucket fields entries (fields.foldl (spreadField bucket) entries) ∧
      HasBucket bucket (fields.foldl (spreadField bucket) entries) := by
  -- The loop goes from the front, so the last field is the one that is added.
  induction fields using List.reverseRecOn with
  | nil => exact ⟨.none bucket entries, isMap⟩
  | append_singleton fields field ih =>
    obtain ⟨spread, isMap⟩ := ih
    rw [List.foldl_append, List.foldl_cons, List.foldl_nil]
    exact ⟨spread.concat apart isMap field, isMap.spreadField apart⟩

/-- The entry that takes the fields without a place of their own. -/
def bucketName (asProps : Option Datum) : String :=
  if asProps.any Datum.isTruthy then "domProps" else "attrs"

theorem bucketName_apart (asProps : Option Datum) : bucketName asProps ∉ ownFields := by
  unfold bucketName
  split <;> decide

/-- Spreading an object keeps every entry of the data object, and what is no object changes
nothing. -/
theorem spreadObject_keeps {entries : Entries} (tag object : Datum) (others : List Datum)
    (isMap : HasBucket (bucketName others.head?) entries) :
    ∃ result, spreadObject (.record entries :: tag :: object :: others) = .ok (.record result) ∧
      (∀ fields, object.toValue = .record fields →
        Spread (bucketName others.head?) fields entries result) ∧
      ((∀ fields, object.toValue ≠ .record fields) → result = entries) := by
  have bucket : (if others[0]?.any Datum.isTruthy then "domProps" else "attrs") =
      bucketName others.head? := by
    rw [bucketName, List.head?_eq_getElem?]
  by_cases isObject : ∃ fields, object.toValue = .record fields
  · obtain ⟨fields, same⟩ := isObject
    refine ⟨fields.foldl (spreadField (bucketName others.head?)) entries, ?_, ?_, ?_⟩
    · simp [spreadObject, same, bucket]
    · intro given equal
      rw [same] at equal
      cases equal
      exact (spread_fields (bucketName_apart _) isMap fields).1
    · intro none
      exact absurd same (none fields)
  · refine ⟨entries, ?_, fun fields same => absurd ⟨fields, same⟩ isObject, fun _ => rfl⟩
    simp only [spreadObject, List.getElem?_cons_succ, List.getElem?_cons_zero, Option.map_some,
      Option.getD_some]
    split
    · next fields same => exact absurd ⟨fields, same⟩ isObject
    · rfl

def linkEntries : Entries :=
  [("class", .ofString "plain"), ("attrs", .record [("href", .ofString "/x")]),
    ("key", .ofString "k")]

def linkFields : List (String × Value) :=
  [("class", .string "b"), ("href", .string "/y"), ("ref", .string "r"), ("title", .string "t")]

def spreadLink : Entries :=
  [("class", .ofString "plain"),
    ("attrs", .record [("href", .ofString "/x"), ("title", .ofString "t")]),
    ("key", .ofString "k"), ("ref", .ofString "r")]

theorem linkEntries_kept :
    HasBucket (bucketName (some (.ofBool false))) linkEntries ∧
      spreadObject [.record linkEntries, .ofString "a", .plain (.record linkFields), .ofBool false] =
        .ok (.record spreadLink) ∧
      Spread (bucketName (some (.ofBool false))) linkFields linkEntries spreadLink := by
  have isMap : HasBucket (bucketName (some (.ofBool false))) linkEntries := by
    intro held found
    cases found
    exact ⟨_, rfl⟩
  have computed : spreadObject [.record linkEntries, .ofString "a", .plain (.record linkFields),
      .ofBool false] = .ok (.record spreadLink) := rfl
  obtain ⟨result, made, spread, -⟩ :=
    spreadObject_keeps (.ofString "a") (.plain (.record linkFields)) [.ofBool false] isMap
  rw [computed] at made
  cases made
  exact ⟨isMap, computed, spread linkFields rfl⟩

end Templating.Evaluation
