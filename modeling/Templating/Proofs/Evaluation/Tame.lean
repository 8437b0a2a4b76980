import Templating.Proofs.Evaluation.Inert
/-!
# Tame expressions

A tame expression calls no fragment and binds no name that a helper may have.
It evaluates to the same with and without fragments, and where functions may
nest more deeply, unless they nest too deeply.
-/
set_option autoImplicit false

namespace Templating.Evaluation

open Templating.Text Templating.Data Templating.Expression

/-! ## Tame expressions and data -/

mutual

def patternNames : Pattern → List String
  | .name name => [name]
  | .record fields => fieldNames fields
  | .list slots => slotNames slots

def fieldNames : List (String × Pattern) → List String
  | [] => []
  | (_, target) :: rest => patternNames target ++ fieldNames rest

def slotNames : List (Option Pattern) → List String
  | [] => []
  | none :: rest => slotNames rest
  | some target :: rest => patternNames target ++ slotNames rest

end

def isFreeName (name : String) : Bool := !startsWith ['_'] name.toList

def bindsFreely (parameters : List Pattern) : Bool :=
  parameters.all fun pattern => (patternNames pattern).all isFreeName

def namesFragments : Expr → Bool
  | .name name => name == "_m"
  | _ => false

mutual

/-- The expression calls no fragment and binds no name of a helper. -/
def isTame : Expr → Bool
  | .literal _ | .this | .name _ => true
  | .member target _ => isTame target
  | .index target key => isTame target && isTame key
  | .call callee arguments => !namesFragments callee && isTame callee && allTame arguments
  | .unary _ operand => isTame operand
  | .binary _ left right => isTame left && isTame right
  | .conditional test whenTrue whenFalse => isTame test && isTame whenTrue && isTame whenFalse
  | .list items => allTame items
  | .record entries => entriesTame entries
  | .listeners entries => listenersTame entries
  | .function parameters body => bindsFreely parameters && isTame body

def allTame : List Expr → Bool
  | [] => true
  | item :: rest => isTame item && allTame rest

def keyTame : Key → Bool
  | .fixed _ => true
  | .computed key => isTame key

def entriesTame : List (Key × Expr) → Bool
  | [] => true
  | (key, value) :: rest => keyTame key && isTame value && entriesTame rest

def listenersTame : List (Key × String) → Bool
  | [] => true
  | (key, _) :: rest => keyTame key && listenersTame rest

end

theorem allTame_iff (items : List Expr) : allTame items = true ↔ ∀ item ∈ items, isTame item = true := by
  induction items with
  | nil => simp [allTame]
  | cons item rest ih => simp [allTame, ih]

namespace Datum

mutual

def IsTame : Datum → Prop
  | .list items => AllTame items
  | .record entries => EntriesTame entries
  | .closure parameters body scope =>
    bindsFreely parameters = true ∧ isTame body = true ∧ EntriesTame scope
  | _ => True

def AllTame : List Datum → Prop
  | [] => True
  | item :: rest => IsTame item ∧ AllTame rest

def EntriesTame : List (String × Datum) → Prop
  | [] => True
  | (_, item) :: rest => IsTame item ∧ EntriesTame rest

end

theorem allTame_iff (items : List Datum) : AllTame items ↔ ∀ item ∈ items, item.IsTame := by
  induction items with
  | nil => simp [AllTame]
  | cons item rest ih => simp [AllTame, ih]

theorem entriesTame_iff (entries : List (String × Datum)) :
    EntriesTame entries ↔ ∀ entry ∈ entries, entry.2.IsTame := by
  induction entries with
  | nil => simp [EntriesTame]
  | cons entry rest ih =>
    obtain ⟨name, item⟩ := entry
    simp [EntriesTame, ih]

theorem isTame_plain (value : Value) : (Datum.plain value).IsTame := trivial

theorem isTame_getD {found : Option Datum} (tame : ∀ datum ∈ found, datum.IsTame) :
    (found.getD undefined).IsTame := by
  cases found with
  | none => trivial
  | some datum => exact tame datum rfl

theorem lookup_isTame {entries : List (String × Datum)} (tame : EntriesTame entries) (name : String) :
    ∀ datum ∈ entries.lookup name, datum.IsTame := by
  intro datum found
  obtain ⟨before, after, same, -⟩ := List.lookup_eq_some_iff.mp found
  exact (entriesTame_iff entries).mp tame (name, datum) (by simp [same])

theorem member_isTame {target found : Datum} (tame : target.IsTame) {name : String}
    (given : target.member name = .ok found) : found.IsTame := by
  unfold member at given
  split at given
  · cases given
  · cases given
  · cases given
    split <;> trivial
  · cases given
    split <;> trivial
  · cases given
    trivial
  · next items =>
    cases given
    split
    · trivial
    · refine isTame_getD fun datum held => ?_
      obtain ⟨index, -, inside⟩ := Option.bind_eq_some_iff.mp held
      exact (allTame_iff items).mp tame datum (List.mem_of_getElem? inside)
  · cases given
    exact isTame_getD (lookup_isTame tame name)
  all_goals
    cases given
    trivial

theorem memberOrUndefined_isTame {target : Datum} (tame : target.IsTame) (name : String) :
    (target.memberOrUndefined name).IsTame := by
  unfold memberOrUndefined
  split
  · next given => exact member_isTame tame given
  · trivial

end Datum

theorem setEntry_isTame {entries : List (String × Datum)} (tame : Datum.EntriesTame entries)
    {value : Datum} (given : value.IsTame) (name : String) :
    Datum.EntriesTame (setEntry name value entries) := by
  induction entries with
  | nil => exact ⟨given, trivial⟩
  | cons entry rest ih =>
    obtain ⟨other, held⟩ := entry
    unfold setEntry
    split
    · exact ⟨given, tame.2⟩
    · exact ⟨tame.1, ih tame.2⟩

/-! ## Bindings -/

/-- Tame bindings, none of which hides a helper. -/
structure IsFreeScope (scope : Scope) : Prop where
  tame : Datum.EntriesTame scope
  free : ∀ entry ∈ scope, isFreeName entry.1 = true

theorem IsFreeScope.nil : IsFreeScope [] := ⟨trivial, fun _ held => by cases held⟩

theorem IsFreeScope.append {scope others : Scope} (first : IsFreeScope scope)
    (second : IsFreeScope others) : IsFreeScope (scope ++ others) := by
  constructor
  · rw [Datum.entriesTame_iff]
    exact List.forall_mem_append.mpr
      ⟨(Datum.entriesTame_iff _).mp first.tame, (Datum.entriesTame_iff _).mp second.tame⟩
  · exact List.forall_mem_append.mpr ⟨first.free, second.free⟩

theorem IsFreeScope.lookup {scope : Scope} (free : IsFreeScope scope) {name : String}
    (helper : startsWith ['_'] name.toList = true) : scope.lookup name = none := by
  rw [List.lookup_eq_none_iff]
  intro entry held
  have other := free.free entry held
  rw [bne_iff_ne]
  rintro rfl
  rw [isFreeName, helper] at other
  cases other

theorem EntriesTame.append {entries others : List (String × Datum)} (first : Datum.EntriesTame entries)
    (second : Datum.EntriesTame others) : Datum.EntriesTame (entries ++ others) := by
  rw [Datum.entriesTame_iff] at *
  exact List.forall_mem_append.mpr ⟨first, second⟩

mutual

theorem bindPattern_isTame {value : Datum} (tame : value.IsTame) (pattern : Pattern) :
    Datum.EntriesTame (bindPattern value pattern) := by
  match pattern with
  | .name name => exact ⟨tame, trivial⟩
  | .record fields => exact bindFields_isTame tame fields
  | .list slots => exact bindSlots_isTame tame 0 slots

theorem bindFields_isTame {value : Datum} (tame : value.IsTame) (fields : List (String × Pattern)) :
    Datum.EntriesTame (bindFields value fields) := by
  match fields with
  | [] => trivial
  | (name, target) :: rest =>
    exact EntriesTame.append (bindPattern_isTame (Datum.memberOrUndefined_isTame tame name) target)
      (bindFields_isTame tame rest)

theorem bindSlots_isTame {value : Datum} (tame : value.IsTame) (position : Nat)
    (slots : List (Option Pattern)) : Datum.EntriesTame (bindSlots value position slots) := by
  match slots with
  | [] => trivial
  | none :: rest => exact bindSlots_isTame tame (position + 1) rest
  | some target :: rest =>
    exact EntriesTame.append (bindPattern_isTame (Datum.memberOrUndefined_isTame tame _) target)
      (bindSlots_isTame tame (position + 1) rest)

end

mutual

theorem bindPattern_names (value : Datum) (pattern : Pattern) :
    (bindPattern value pattern).map Prod.fst = patternNames pattern := by
  match pattern with
  | .name name => rfl
  | .record fields => exact bindFields_names value fields
  | .list slots => exact bindSlots_names value 0 slots

theorem bindFields_names (value : Datum) (fields : List (String × Pattern)) :
    (bindFields value fields).map Prod.fst = fieldNames fields := by
  match fields with
  | [] => rfl
  | (name, target) :: rest =>
    rw [bindFields, fieldNames, List.map_append, bindPattern_names, bindFields_names]

theorem bindSlots_names (value : Datum) (position : Nat) (slots : List (Option Pattern)) :
    (bindSlots value position slots).map Prod.fst = slotNames slots := by
  match slots with
  | [] => rfl
  | none :: rest => exact bindSlots_names value (position + 1) rest
  | some target :: rest =>
    rw [bindSlots, slotNames, List.map_append, bindPattern_names, bindSlots_names]

end

theorem bindParameters_isFree {parameters : List Pattern} (free : bindsFreely parameters = true)
    {arguments : List Datum} (tame : ∀ datum ∈ arguments, datum.IsTame) :
    IsFreeScope (bindParameters parameters arguments) := by
  have bound {pattern : Pattern} (named : (patternNames pattern).all isFreeName = true) {value : Datum}
      (given : value.IsTame) : IsFreeScope (bindPattern value pattern) := by
    refine ⟨bindPattern_isTame given pattern, fun entry held => ?_⟩
    have inside := List.mem_map_of_mem (f := Prod.fst) held
    rw [bindPattern_names] at inside
    exact List.all_eq_true.mp named _ inside
  induction parameters generalizing arguments with
  | nil => cases arguments <;> exact .nil
  | cons pattern patterns ih =>
    rw [bindsFreely, List.all_cons, Bool.and_eq_true] at free
    cases arguments with
    | nil => exact (@bound pattern free.1 .undefined trivial).append (ih free.2 tame)
    | cons argument arguments =>
      obtain ⟨first, others⟩ := List.forall_mem_cons.mp tame
      exact (bound free.1 first).append (ih free.2 others)

theorem IsFreeScope.reverse {scope : Scope} (free : IsFreeScope scope) : IsFreeScope scope.reverse := by
  refine ⟨?_, fun entry held => free.free entry (List.mem_reverse.mp held)⟩
  rw [Datum.entriesTame_iff]
  exact fun entry held => (Datum.entriesTame_iff _).mp free.tame entry (List.mem_reverse.mp held)

/-! ## Steps that refine others -/

section Steps

variable {α β : Type}

/-- Whatever is kept, both steps end alike and keep nothing more, unless the
other one goes too deep. -/
def Refines (holds : α → Prop) (step other : Eval α) : Prop :=
  ∃ result, Gives other result ∧ (result = .error .tooDeep ∨ Gives step result) ∧
    ∀ value, result = .ok value → holds value

variable {holds : α → Prop} {holdsThen : β → Prop}

theorem Refines.pure {value : α} (given : holds value) :
    Refines holds (Pure.pure value) (Pure.pure value) :=
  ⟨.ok value, fun _ => rfl, .inr fun _ => rfl, fun _ same => Except.ok.inj same ▸ given⟩

theorem Refines.fail (fault : Fault) : Refines holds (Eval.fail fault) (Eval.fail fault) :=
  ⟨.error (.fault fault), fun _ => rfl, .inr fun _ => rfl, fun _ same => by cases same⟩

theorem Refines.tooDeep (step : Eval α) : Refines holds step (throw .tooDeep) :=
  ⟨.error .tooDeep, fun _ => rfl, .inl rfl, fun _ same => by cases same⟩

theorem Refines.ofExcept {result : Except Fault α} (given : ∀ value, result = .ok value → holds value) :
    Refines holds (Eval.ofExcept result) (Eval.ofExcept result) := by
  cases result with
  | ok value => exact .pure (given value rfl)
  | error fault => exact .fail fault

theorem Refines.bind {step other : Eval α} {next otherNext : α → Eval β}
    (first : Refines holds step other)
    (second : ∀ value, holds value → Refines holdsThen (next value) (otherNext value)) :
    Refines holdsThen (step >>= next) (other >>= otherNext) := by
  obtain ⟨result, otherGives, gives, given⟩ := first
  cases result with
  | ok value =>
    obtain ⟨final, otherNextGives, nextGives, givenThen⟩ := second value (given value rfl)
    have otherRuns : Gives (other >>= otherNext) final := fun cache => by
      rw [run_bind, otherGives]
      exact otherNextGives cache
    refine ⟨final, otherRuns, ?_, givenThen⟩
    rcases gives with deep | gives
    · cases deep
    · exact nextGives.imp id fun nextGives cache => by
        rw [run_bind, gives]
        exact nextGives cache
  | error halt =>
    refine ⟨.error halt, fun cache => by rw [run_bind, otherGives], ?_, fun _ same => by cases same⟩
    rcases gives with deep | gives
    · cases deep
      exact .inl rfl
    · exact .inr fun cache => by rw [run_bind, gives]

theorem Refines.mono {weaker : α → Prop} {step other : Eval α} (refines : Refines holds step other)
    (implied : ∀ value, holds value → weaker value) : Refines weaker step other := by
  obtain ⟨result, otherGives, gives, given⟩ := refines
  exact ⟨result, otherGives, gives, fun value same => implied value (given value same)⟩

end Steps

/-! ## Helpers keep data tame -/

theorem rowsOf_isTame {source : Datum} (tame : source.IsTame) :
    ∀ row ∈ rowsOf source, ∀ datum ∈ row, datum.IsTame := by
  have inner {items : List Datum} {item : Datum} {position : Nat}
      (inside : (item, position) ∈ items.zipIdx) : item ∈ items :=
    (List.mem_zipIdx inside).2.2 ▸ List.getElem_mem _
  unfold rowsOf
  split
  · next items =>
    simp only [List.mem_map, Prod.exists]
    rintro _ ⟨item, position, inside, rfl⟩
    have held := (Datum.allTame_iff items).mp tame item (inner inside)
    exact List.forall_mem_cons.mpr ⟨held, List.forall_mem_singleton.mpr trivial⟩
  · next entries =>
    simp only [List.mem_map, Prod.exists]
    rintro _ ⟨name, item, position, inside, rfl⟩
    have listed : (name, item) ∈ entries := (List.mem_zipIdx inside).2.2 ▸ List.getElem_mem _
    have held := (Datum.entriesTame_iff entries).mp tame (name, item) listed
    exact List.forall_mem_cons.mpr ⟨held, List.forall_mem_cons.mpr
      ⟨trivial, List.forall_mem_singleton.mpr trivial⟩⟩
  all_goals
    intro row held datum inside
    simp only [List.mem_map, Prod.exists, List.not_mem_nil] at held
  · obtain ⟨item, position, -, rfl⟩ := held
    simp only [List.mem_cons, List.not_mem_nil, or_false] at inside
    rcases inside with rfl | rfl <;> trivial
  · obtain ⟨name, item, position, -, rfl⟩ := held
    simp only [List.mem_cons, List.not_mem_nil, or_false] at inside
    rcases inside with rfl | rfl | rfl <;> trivial
  · obtain ⟨position, -, rfl⟩ := held
    simp only [List.mem_cons, List.not_mem_nil, or_false] at inside
    rcases inside with rfl | rfl <;> trivial
  · obtain ⟨c, position, -, rfl⟩ := held
    simp only [List.mem_cons, List.not_mem_nil, or_false] at inside
    rcases inside with rfl | rfl <;> trivial

theorem createElement_node {arguments : List Datum} {result : Datum}
    (made : createElement arguments = .ok result) : ∃ node, result = .node node := by
  unfold createElement at made
  simp only at made
  split at made
  · split at made
    · cases made
    · cases made
      split <;> exact ⟨_, rfl⟩
  · cases made
    exact ⟨_, rfl⟩
  · cases made
    exact ⟨_, rfl⟩
  · cases made

mutual

theorem markStatic_isTame (key : String) (datum : Datum) (tame : datum.IsTame) :
    (markStatic key datum).IsTame := by
  match datum with
  | .list items => exact markAllStatic_isTame key 0 items tame
  | .node (.element _ _ _) => trivial
  | .node (.text _) => trivial
  | .node (.comment _) => trivial
  | .plain _ => trivial
  | .record _ => exact tame
  | .listeners _ => trivial
  | .closure _ _ _ => exact tame

theorem markAllStatic_isTame (key : String) (position : Nat) (items : List Datum)
    (tame : Datum.AllTame items) : Datum.AllTame (markAllStatic key position items) := by
  match items with
  | [] => trivial
  | item :: rest =>
    exact ⟨markStatic_isTame _ item tame.1, markAllStatic_isTame key (position + 1) rest tame.2⟩

end

theorem addIfAbsent_isTame {entries : List (String × Datum)} (tame : Datum.EntriesTame entries)
    {value : Datum} (given : value.IsTame) (name : String) :
    Datum.EntriesTame (addIfAbsent name value entries) := by
  unfold addIfAbsent
  split
  · exact tame
  · exact EntriesTame.append tame ⟨given, trivial⟩

theorem changeEntry_isTame {entries : List (String × Datum)} (tame : Datum.EntriesTame entries)
    {change : Datum → Datum} (keeps : ∀ datum : Datum, datum.IsTame → (change datum).IsTame)
    (name : String) : Datum.EntriesTame (changeEntry name change entries) := by
  induction entries with
  | nil => trivial
  | cons entry rest ih =>
    obtain ⟨other, held⟩ := entry
    unfold changeEntry
    split
    · exact ⟨keeps held tame.1, tame.2⟩
    · exact ⟨tame.1, ih tame.2⟩

theorem spreadObject_isTame {arguments : List Datum} (tame : ∀ datum ∈ arguments, datum.IsTame)
    {result : Datum} (made : spreadObject arguments = .ok result) : result.IsTame := by
  have fields (bucket : String) (given : List (String × Value)) (entries : List (String × Datum))
      (start : Datum.EntriesTame entries) :
      Datum.EntriesTame (given.foldl (spreadField bucket) entries) := by
    induction given generalizing entries with
    | nil => exact start
    | cons field rest ih =>
      refine ih _ ?_
      unfold spreadField
      split
      · exact addIfAbsent_isTame start (Datum.isTame_plain _) _
      · have bucketed : Datum.EntriesTame (addIfAbsent bucket (.record []) entries) :=
          addIfAbsent_isTame start (show Datum.IsTame (.record []) from trivial) bucket
        refine changeEntry_isTame bucketed (fun datum held => ?_) _
        unfold addToBucket
        split
        · exact addIfAbsent_isTame held (Datum.isTame_plain _) _
        · exact held
  unfold spreadObject at made
  split at made
  · next entries rest =>
    have start : Datum.EntriesTame entries := tame (.record entries) List.mem_cons_self
    simp only at made
    split at made <;> cases made
    · exact fields _ _ entries start
    · exact start
  · cases made

/-! ## Evaluation of tame expressions -/

/-- Data and outlets are the same, and tame bodies of functions refine. -/
structure EntersRefined (environment other : Environment) (enter otherEnter : Entrance) : Prop where
  data : environment.data = other.data
  slots : environment.slots = other.slots
  bodies : ∀ scope body, Datum.EntriesTame scope → isTame body = true →
    Refines Datum.IsTame (enter.body scope body) (otherEnter.body scope body)

section Evaluation

variable {environment other : Environment} {enter otherEnter : Entrance}
  (enters : EntersRefined environment other enter otherEnter)

include enters

theorem applyClosure_refines {parameters : List Pattern} {body : Expr} {scope : Scope}
    (tame : (Datum.closure parameters body scope).IsTame) {arguments : List Datum}
    (given : ∀ datum ∈ arguments, datum.IsTame) :
    Refines Datum.IsTame (applyClosure enter parameters body scope arguments)
      (applyClosure otherEnter parameters body scope arguments) := by
  obtain ⟨free, tameBody, tameScope⟩ := tame
  exact enters.bodies _ body
    (EntriesTame.append (bindParameters_isFree free given).reverse.tame tameScope) tameBody

theorem renderRows_refines {parameters : List Pattern} {body : Expr} {scope : Scope}
    (tame : (Datum.closure parameters body scope).IsTame) {rows : List (List Datum)}
    (given : ∀ row ∈ rows, ∀ datum ∈ row, datum.IsTame) :
    Refines (fun items => ∀ datum ∈ items, datum.IsTame)
      (renderRows (applyClosure enter parameters body scope) rows)
      (renderRows (applyClosure otherEnter parameters body scope) rows) := by
  induction rows with
  | nil => exact .pure fun _ held => by cases held
  | cons row rest ih =>
    obtain ⟨first, others⟩ := List.forall_mem_cons.mp given
    refine (applyClosure_refines enters tame first).bind fun item tameItem => ?_
    exact (ih others).bind fun items tameItems =>
      .pure (List.forall_mem_cons.mpr ⟨tameItem, tameItems⟩)

theorem callBuiltin_refines {name : String} (noFragment : name ≠ "_m") {arguments : List Datum}
    (tame : ∀ datum ∈ arguments, datum.IsTame) :
    Refines Datum.IsTame (callBuiltin environment enter name arguments)
      (callBuiltin other otherEnter name arguments) := by
  unfold callBuiltin
  split
  · refine .ofExcept fun value made => ?_
    obtain ⟨node, rfl⟩ := createElement_node made
    trivial
  · exact .pure trivial
  · exact .pure trivial
  · exact .pure trivial
  · exact absurd rfl noFragment
  · refine .pure (markStatic_isTame _ _ (Datum.isTame_getD fun datum held => ?_))
    exact tame datum (List.mem_of_getElem? held)
  · unfold renderList
    split
    · next source parameters body scope rest =>
      obtain ⟨tameSource, tame⟩ := List.forall_mem_cons.mp tame
      exact (renderRows_refines enters (List.forall_mem_cons.mp tame).1 (rowsOf_isTame tameSource)).bind
        fun items tameItems => .pure ((Datum.allTame_iff items).mpr tameItems)
    · exact .fail _
  · unfold renderOutlet
    rw [enters.slots]
    split
    · next nodes _ =>
      refine .pure ((Datum.allTame_iff _).mpr fun datum held => ?_)
      obtain ⟨node, -, rfl⟩ := List.mem_map.mp held
      trivial
    · split
      · next given =>
        exact applyClosure_refines enters (tame _ (List.mem_of_getElem? given)) fun _ held => by cases held
      · exact .pure trivial
  · exact .ofExcept fun value made => spreadObject_isTame tame made
  · exact .fail _

theorem callDatum_refines (name : String) {callee : Datum} (tame : callee.IsTame)
    {arguments : List Datum} (given : ∀ datum ∈ arguments, datum.IsTame) :
    Refines Datum.IsTame (callDatum enter name callee arguments)
      (callDatum otherEnter name callee arguments) := by
  unfold callDatum
  split
  · exact applyClosure_refines enters tame given
  · exact .fail _

theorem callName_refines {scope : Scope} (tame : Datum.EntriesTame scope) {name : String}
    (noFragment : name ≠ "_m") {arguments : List Datum}
    (given : ∀ datum ∈ arguments, datum.IsTame) :
    Refines Datum.IsTame (callName environment enter scope name arguments)
      (callName other otherEnter scope name arguments) := by
  unfold callName
  rw [enters.data]
  split
  · next bound found => exact callDatum_refines enters name (Datum.lookup_isTame tame name bound found) given
  · split
    · exact callBuiltin_refines enters noFragment given
    · split
      · exact .fail _
      · refine .ofExcept fun value made => ?_
        cases called : callGlobal name (arguments.map Datum.toValue) <;> rw [called] at made <;> cases made
        trivial

theorem callMember_refines {target : Datum} (tame : target.IsTame) (property : String)
    {arguments : List Datum} (given : ∀ datum ∈ arguments, datum.IsTame) :
    Refines Datum.IsTame (callMember enter target property arguments)
      (callMember otherEnter target property arguments) := by
  refine (Refines.ofExcept fun value made => Datum.member_isTame tame made).bind fun found tameFound => ?_
  split
  · exact applyClosure_refines enters tameFound given
  · refine .ofExcept fun value made => ?_
    cases called : callMethod target.toValue property (arguments.map Datum.toValue) <;>
      rw [called] at made <;> cases made
    trivial

end Evaluation

section Run

variable {environment other : Environment} {enter otherEnter : Entrance}

theorem lookUp_isTame (environment : Environment) {scope : Scope} (tame : Datum.EntriesTame scope)
    (name : String) : (lookUp environment scope name).IsTame := by
  unfold lookUp
  split
  · next bound found => exact Datum.lookup_isTame tame name bound found
  · trivial

mutual

theorem evaluate_refines (enters : EntersRefined environment other enter otherEnter) (scope : Scope)
    (tameScope : Datum.EntriesTame scope) (source : Expr) (tame : isTame source = true) :
    Refines Datum.IsTame (evaluate environment enter scope source)
      (evaluate other otherEnter scope source) := by
  match source with
  | .literal value =>
    simp only [evaluate]
    exact .pure trivial
  | .this =>
    simp only [evaluate, enters.data]
    exact .pure trivial
  | .name name =>
    have same : lookUp environment scope name = lookUp other scope name := by
      rw [lookUp, lookUp, enters.data]
    simp only [evaluate, same]
    exact .pure (lookUp_isTame other tameScope name)
  | .function parameters body =>
    rw [isTame, Bool.and_eq_true] at tame
    simp only [evaluate]
    -- Its body is left for where the function is entered: here it is only a tame value.
    exact .pure ⟨tame.1, tame.2, tameScope⟩
  | .member target property =>
    simp only [evaluate]
    exact (evaluate_refines enters scope tameScope target tame).bind fun value given =>
      .ofExcept fun found made => Datum.member_isTame given made
  | .index target key =>
    rw [isTame, Bool.and_eq_true] at tame
    simp only [evaluate]
    exact (evaluate_refines enters scope tameScope target tame.1).bind fun value given =>
      (evaluate_refines enters scope tameScope key tame.2).bind fun _ _ =>
        .ofExcept fun found made => Datum.member_isTame given made
  | .call callee arguments =>
    rw [isTame, Bool.and_eq_true, Bool.and_eq_true, Bool.not_eq_true'] at tame
    obtain ⟨⟨noFragment, tameCallee⟩, tameArguments⟩ := tame
    simp only [evaluate]
    refine (evaluateAll_refines enters scope tameScope arguments tameArguments).bind fun values given => ?_
    match callee with
    | .name name =>
      exact callName_refines enters tameScope (beq_eq_false_iff_ne.mp noFragment) given
    | .member target property =>
      exact (evaluate_refines enters scope tameScope target tameCallee).bind fun found tameFound =>
        callMember_refines enters tameFound property given
    | .literal _ | .this | .index _ _ | .call _ _ | .unary _ _ | .binary _ _ _ | .conditional _ _ _
    | .list _ | .record _ | .listeners _ | .function _ _ =>
      exact (evaluate_refines enters scope tameScope _ tameCallee).bind fun found tameFound =>
        callDatum_refines enters _ tameFound given
  | .unary operator operand =>
    simp only [evaluate]
    refine (evaluate_refines enters scope tameScope operand tame).bind fun value _ => .pure ?_
    cases operator <;> trivial
  | .binary operator left right =>
    rw [isTame, Bool.and_eq_true] at tame
    simp only [evaluate]
    refine (evaluate_refines enters scope tameScope left tame.1).bind fun value given => ?_
    split
    · exact .pure given
    · refine (evaluate_refines enters scope tameScope right tame.2).bind fun found tameFound => .pure ?_
      cases operator <;> first | exact tameFound | trivial
  | .conditional test whenTrue whenFalse =>
    rw [isTame, Bool.and_eq_true, Bool.and_eq_true] at tame
    simp only [evaluate]
    refine (evaluate_refines enters scope tameScope test tame.1.1).bind fun value _ => ?_
    split
    · exact evaluate_refines enters scope tameScope whenTrue tame.1.2
    · exact evaluate_refines enters scope tameScope whenFalse tame.2
  | .list items =>
    simp only [evaluate]
    exact (evaluateAll_refines enters scope tameScope items tame).bind fun values given =>
      .pure ((Datum.allTame_iff values).mpr given)
  | .record entries =>
    simp only [evaluate]
    exact (evaluateEntries_refines enters scope tameScope [] trivial entries tame).bind fun _ given =>
      .pure given
  | .listeners entries =>
    simp only [evaluate]
    exact (evaluateListeners_refines enters scope tameScope entries tame).bind fun _ _ =>
      .pure trivial

theorem evaluateAll_refines (enters : EntersRefined environment other enter otherEnter)
    (scope : Scope) (tameScope : Datum.EntriesTame scope) (items : List Expr)
    (tame : allTame items = true) :
    Refines (fun values => ∀ datum ∈ values, datum.IsTame)
      (evaluateAll environment enter scope items) (evaluateAll other otherEnter scope items) := by
  match items with
  | [] =>
    simp only [evaluateAll]
    exact .pure fun _ held => by cases held
  | item :: rest =>
    rw [allTame, Bool.and_eq_true] at tame
    simp only [evaluateAll]
    exact (evaluate_refines enters scope tameScope item tame.1).bind fun value given =>
      (evaluateAll_refines enters scope tameScope rest tame.2).bind fun values others =>
        .pure (List.forall_mem_cons.mpr ⟨given, others⟩)

theorem evaluateKey_refines (enters : EntersRefined environment other enter otherEnter)
    (scope : Scope) (tameScope : Datum.EntriesTame scope) (key : Key) (tame : keyTame key = true) :
    Refines (fun _ => True) (evaluateKey environment enter scope key)
      (evaluateKey other otherEnter scope key) := by
  match key with
  | .fixed name =>
    simp only [evaluateKey]
    exact .pure trivial
  | .computed expression =>
    simp only [evaluateKey]
    exact (evaluate_refines enters scope tameScope expression tame).bind fun _ _ => .pure trivial

theorem evaluateEntries_refines (enters : EntersRefined environment other enter otherEnter)
    (scope : Scope) (tameScope : Datum.EntriesTame scope) (done : List (String × Datum))
    (tameDone : Datum.EntriesTame done) (entries : List (Key × Expr))
    (tame : entriesTame entries = true) :
    Refines Datum.EntriesTame (evaluateEntries environment enter scope done entries)
      (evaluateEntries other otherEnter scope done entries) := by
  match entries with
  | [] =>
    simp only [evaluateEntries]
    exact .pure tameDone
  | (key, value) :: rest =>
    rw [entriesTame, Bool.and_eq_true, Bool.and_eq_true] at tame
    simp only [evaluateEntries]
    exact (evaluateKey_refines enters scope tameScope key tame.1.1).bind fun name _ =>
      (evaluate_refines enters scope tameScope value tame.1.2).bind fun datum given =>
        evaluateEntries_refines enters scope tameScope _ (setEntry_isTame tameDone given name) rest
          tame.2

theorem evaluateListeners_refines (enters : EntersRefined environment other enter otherEnter)
    (scope : Scope) (tameScope : Datum.EntriesTame scope) (entries : List (Key × String))
    (tame : listenersTame entries = true) :
    Refines (fun _ => True) (evaluateListeners environment enter scope entries)
      (evaluateListeners other otherEnter scope entries) := by
  match entries with
  | [] =>
    simp only [evaluateListeners]
    exact .pure trivial
  | (key, source) :: rest =>
    rw [listenersTame, Bool.and_eq_true] at tame
    simp only [evaluateListeners]
    exact (evaluateKey_refines enters scope tameScope key tame.1).bind fun _ _ =>
      (evaluateListeners_refines enters scope tameScope rest tame.2).bind fun _ _ => .pure trivial

end

/-- Where functions may nest more deeply, and whatever the fragments, a tame
expression evaluates to the same, unless it goes too deep. -/
theorem evaluateCalls_refines (data : environment.data = other.data)
    (slots : environment.slots = other.slots) (fragment otherFragment : Expr → Eval Datum)
    {depth more : Nat} (deeper : depth ≤ more) (scope : Scope)
    (tameScope : Datum.EntriesTame scope) (source : Expr) (tame : isTame source = true) :
    Refines Datum.IsTame (evaluateCalls environment fragment more scope source)
      (evaluateCalls other otherFragment depth scope source) := by
  induction depth generalizing more scope source with
  | zero =>
    cases more with
    | zero =>
      exact evaluate_refines ⟨data, slots, fun _ _ _ _ => .tooDeep _⟩ scope tameScope source tame
    | succ more =>
      exact evaluate_refines ⟨data, slots, fun _ _ _ _ => .tooDeep _⟩ scope tameScope source tame
  | succ depth ih =>
    obtain ⟨more, rfl⟩ := Nat.exists_eq_succ_of_ne_zero (Nat.ne_zero_of_lt deeper)
    have bodies := fun scope body tameScope tame =>
      ih (Nat.le_of_succ_le_succ deeper) scope tameScope body tame
    exact evaluate_refines ⟨data, slots, bodies⟩ scope tameScope source tame

end Run

end Templating.Evaluation
