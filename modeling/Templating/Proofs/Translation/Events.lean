import Templating.Proofs.Text.Trimming
import Templating.Proofs.Translation.Listeners
/-!
# Events and their listeners

The object of all listeners is read back as it was meant: each event stands there once,
with the source of its listener, or a list of the sources of all its listeners.

Listeners are not parsed; their sources are cut at the first comma outside brackets and
texts.  A path that is balanced has no such comma, and whatever is wrapped in a function
has none either.
-/
set_option autoImplicit false

namespace Templating.Expression.Grammar

open Templating.Rendering (closes_append_iff closes_enclosed)

/-! ## Open commas -/

instance (expected source : List Char) : Decidable (Closes expected source) :=
  inferInstanceAs (Decidable (imbalanceFrom expected .code source = none))

/-- A comma stands outside all brackets and texts: what is before it is balanced. -/
def HasOpenComma (source : List Char) : Prop :=
  ∃ before after, source = before ++ ',' :: after ∧ Closes [] before

theorem hasOpenComma_iff (source : List Char) :
    HasOpenComma source ↔ ∃ position ∈ List.range source.length,
      source[position]? = some ',' ∧ Closes [] (source.take position) := by
  constructor
  · rintro ⟨before, after, rfl, balanced⟩
    refine ⟨before.length, List.mem_range.mpr ?_, ?_, ?_⟩
    · rw [List.length_append, List.length_cons]
      omega
    · rw [List.getElem?_append_right (Nat.le_refl _), Nat.sub_self, List.getElem?_cons_zero]
    · rwa [List.take_left]
  · rintro ⟨position, -, comma, balanced⟩
    obtain ⟨inside, same⟩ := List.getElem?_eq_some_iff.mp comma
    refine ⟨source.take position, source.drop (position + 1), ?_, balanced⟩
    rw [← same, List.getElem_cons_drop, List.take_append_drop]

instance : DecidablePred HasOpenComma := fun source => decidable_of_iff _ (hasOpenComma_iff source).symm

theorem HasOpenComma.append {front behind : List Char} (balanced : Closes [] front)
    (isOpen : HasOpenComma behind) : HasOpenComma (front ++ behind) := by
  obtain ⟨before, after, rfl, closes⟩ := isOpen
  refine ⟨front ++ before, after, by rw [List.append_assoc], ?_⟩
  exact (closes_append_iff balanced [] before).mpr closes

theorem Pieces.closes {source : List Char} (pieces : Pieces source) : Closes [] source := by
  induction pieces with
  | nil => exact (closes_nil_iff []).mpr rfl
  | @text c content behind quoted _ closes _ ih =>
    rw [List.cons_append, closes_quote_iff quoted, closes]
    exact ih
  | @group c closer inside behind opening isCloser _ _ within ih =>
    have split : c :: inside ++ closer :: behind = (c :: inside ++ [closer]) ++ behind := by simp
    rw [split, closes_append_iff (closes_enclosed opening isCloser within)]
    exact ih
  | plain isPlain _ ih => exact (closes_plain_iff isPlain [] _).mpr ih

theorem Pieces.passes_of_noComma {source : List Char} (pieces : Pieces source)
    (noComma : ¬HasOpenComma source) : Passes endsListener source := by
  induction pieces with
  | nil => exact .nil endsListener
  | @text c content behind quoted ends closes _ ih =>
    have balanced : Closes [] (c :: content) := by
      have alone := closes [] []
      rw [List.append_nil] at alone
      exact (closes_quote_iff quoted [] content).mpr (alone.mpr ((closes_nil_iff []).mpr rfl))
    exact (Passes.text endsListener quoted ends).append
      (ih fun isOpen => noComma (isOpen.append balanced))
  | @group c closer inside behind opening isCloser within _ _ ih =>
    have split : c :: inside ++ closer :: behind = (c :: inside ++ [closer]) ++ behind := by simp
    have balanced : Closes [] (c :: inside ++ [closer]) :=
      closes_enclosed opening isCloser within.closes
    rw [split] at noComma ⊢
    exact (Passes.group endsListener opening isCloser within.passes).append
      (ih fun isOpen => noComma (isOpen.append balanced))
  | @plain c behind isPlain _ ih =>
    have balanced : Closes [] [c] := (closes_plain_iff isPlain [] []).mpr ((closes_nil_iff []).mpr rfl)
    have goesOn : endsListener c = false := by
      by_contra ends
      rcases endsListener_cases (eq_true_of_ne_false ends) with rfl | rfl | rfl | rfl
      · exact noComma ⟨[], behind, rfl, (closes_nil_iff []).mpr rfl⟩
      all_goals cases isPlain
    exact (Passes.plain isPlain goesOn).append (ih fun isOpen => noComma (isOpen.append balanced))

theorem isUnbroken_of_noComma {source : List Char} (balanced : Closes [] source)
    (noComma : ¬HasOpenComma source) : isUnbroken source = true := by
  obtain ⟨left, -, read⟩ := (Pieces.ofCloses balanced).passes_of_noComma noComma source.length []
    (by rw [List.append_nil])
  rw [List.append_nil] at read
  rw [isUnbroken, read]
  cases left <;> rfl

end Templating.Expression.Grammar

namespace Templating.Rendering

open Templating.Text Templating.Data Templating.Template Templating.Expression
open Templating.Expression.Grammar

/-! ## Paths -/

/-- Where the reading of a path stands behind one more character: `key` holds what has been
read of a key between brackets. -/
inductive PathStep : Option (List Char) → Char → Option (List Char) → Prop where
  | name {c : Char} (named : isNameChar c = true ∨ c = '.') : PathStep none c none
  | enter : PathStep none '[' (some [])
  | leave (key : List Char) : PathStep (some key) ']' none
  | inside (key : List Char) {c : Char} (other : c ≠ ']') : PathStep (some key) c (some (c :: key))

theorem isPathRest_step {key : Option (List Char)} {c : Char} {rest : List Char}
    (path : isPathRest key (c :: rest) = true) :
    ∃ next, PathStep key c next ∧ isPathRest next rest = true := by
  cases key with
  | some key =>
    rw [isPathRest] at path
    by_cases ends : c = ']'
    · subst ends
      rw [if_pos rfl, Bool.and_eq_true] at path
      exact ⟨none, .leave key, path.2⟩
    · rw [if_neg ends] at path
      exact ⟨some (c :: key), .inside key ends, path⟩
  | none =>
    by_cases dot : c = '.'
    · subst dot
      cases rest with
      | nil => exact absurd path (by decide)
      | cons d rest =>
        rw [isPathRest, Bool.and_eq_true] at path
        refine ⟨none, .name (.inr rfl), ?_⟩
        -- The character behind the dot begins a name, and would go on with one.
        have named := isNameChar_of_isNameStart path.1
        have noDot : d ≠ '.' := by
          rintro rfl
          cases path.1
        rw [isPathRest]
        · rw [if_pos named]
          exact path.2
        · intro e more same
          exact absurd same noDot
    · rw [isPathRest] at path
      · by_cases named : isNameChar c = true
        · rw [if_pos named] at path
          exact ⟨none, .name (.inl named), path⟩
        · rw [if_neg named] at path
          by_cases opens : c = '['
          · subst opens
            exact ⟨some [], .enter, path⟩
          · rw [if_neg opens] at path
            cases path
      · intro e more same
        exact absurd same dot

/-- While a path is read some bracket is open, and the first that was opened is square, unless
the reading is outside of all keys and texts. -/
def PathOpen (key : Option (List Char)) (region : Region) (expected : List Char) : Prop :=
  expected.getLast? = some ']' ∨ (expected = [] ∧ key = none ∧ region = .code)

theorem getLast?_push {expected : List Char} {last : Char} (ends : expected.getLast? = some last)
    (first : Char) : (first :: expected).getLast? = some last := by
  cases expected with
  | nil => cases ends
  | cons second others => rw [List.getLast?_cons_cons, ends]

/-- No text before a comma in a path is balanced. -/
theorem pathRest_unbalanced {key : Option (List Char)} {region : Region}
    {expected before after : List Char} (path : isPathRest key (before ++ ',' :: after) = true)
    (isOpen : PathOpen key region expected) : imbalanceFrom expected region before ≠ none := by
  induction before generalizing key region expected with
  | nil =>
    intro balanced
    obtain ⟨next, step, -⟩ := isPathRest_step path
    cases step with
    | name named => exact absurd named (by decide)
    | inside key other =>
      obtain last | ⟨-, impossible, -⟩ := isOpen
      · cases region with
        | code =>
          rw [(closes_nil_iff expected).mp balanced] at last
          cases last
        | quoted quote escaped => simp [imbalanceFrom] at balanced
      · cases impossible
  | cons c others ih =>
    intro balanced
    obtain ⟨next, step, rest⟩ := isPathRest_step path
    cases region with
    | quoted quote escaped =>
      obtain last | ⟨-, -, impossible⟩ := isOpen
      · cases escaped with
        | true => exact ih rest (.inl last) balanced
        | false =>
          rw [imbalanceFrom] at balanced
          split at balanced
          · exact ih rest (.inl last) balanced
          · split at balanced
            · exact ih rest (.inl last) balanced
            · split at balanced
              · cases balanced
              · exact ih rest (.inl last) balanced
      · cases impossible
    | code =>
      obtain quoted | ⟨closer, opening⟩ | isCloser | plain := char_cases c
      · have inside := (closes_quote_iff quoted expected others).mp balanced
        obtain last | ⟨rfl, rfl, -⟩ := isOpen
        · exact ih rest (.inl last) inside
        · cases step with
          | name named =>
            obtain named | rfl := named
            · have noQuote := isQuote_of_plain (isPlain_of_isNameChar named)
              rw [noQuote] at quoted
              cases quoted
            · cases quoted
          | enter => cases quoted
      · have inside := (closes_opening_iff opening expected others).mp balanced
        obtain last | ⟨rfl, rfl, -⟩ := isOpen
        · exact ih rest (.inl (getLast?_push last closer)) inside
        · cases step with
          | name named =>
            obtain named | rfl := named
            · have noBracket := closerOf_of_plain (isPlain_of_isNameChar named)
              rw [noBracket] at opening
              cases opening
            · cases opening
          | enter =>
            cases opening
            exact ih rest (.inl rfl) inside
      · obtain ⟨outer, rfl, inside⟩ := (closes_closer_iff isCloser expected others).mp balanced
        obtain last | ⟨impossible, -⟩ := isOpen
        · cases outer with
          | nil =>
            -- The first bracket is closed: it ends a key.
            obtain rfl : c = ']' := Option.some.inj last
            cases step with
            | name named => exact absurd named (by decide)
            | leave key => exact ih rest (.inr ⟨rfl, rfl, rfl⟩) inside
            | inside key other => exact absurd rfl other
          | cons second others =>
            rw [List.getLast?_cons_cons] at last
            exact ih rest (.inl last) inside
        · cases impossible
      · have inside := (closes_plain_iff plain expected others).mp balanced
        obtain last | ⟨rfl, rfl, -⟩ := isOpen
        · exact ih rest (.inl last) inside
        · cases step with
          | name named => exact ih rest (.inr ⟨rfl, rfl, rfl⟩) inside
          | enter => cases plain

theorem noComma_of_isPath {source : List Char} (path : isPath source = true) :
    ¬HasOpenComma source := by
  rintro ⟨before, after, rfl, balanced⟩
  cases before with
  | nil =>
    rw [List.nil_append, isPath, Bool.and_eq_true] at path
    exact absurd path.1 (by decide)
  | cons c others =>
    rw [List.cons_append, isPath, Bool.and_eq_true] at path
    have plain := isPlain_of_isNameChar (isNameChar_of_isNameStart path.1)
    have inside := (closes_plain_iff plain [] others).mp balanced
    exact pathRest_unbalanced path.2 (.inr ⟨rfl, rfl, rfl⟩) inside

theorem isUnbroken_of_balanced {listener : Listener} (balanced : imbalance? listener.source = none)
    (noComma : listener.modifiers = [] → isFunction (trim listener.source.toList) = true →
      ¬HasOpenComma (trim listener.source.toList)) : Listener.IsUnbroken listener := by
  intro bare
  have closed : IsBalanced (trimmed listener.source) := IsBalanced.trimmed balanced
  rw [IsBalanced, trimmed, String.toList_ofList] at closed
  apply isUnbroken_of_noComma closed
  simp only [Listener.isBare, Bool.and_eq_true, Bool.or_eq_true, List.isEmpty_iff] at bare
  obtain ⟨⟨unmodified, -⟩, path | function⟩ := bare
  · exact noComma_of_isPath path
  · exact noComma unmodified function

/-! ## Sources -/

/-- The source of an event: the code of its only listener, or the list of all codes. -/
def eventSource (listeners : List Listener) (event : String) : String :=
  match (listeners.filter fun listener => listener.event == event).map listenerCode with
  | [code] => code
  | codes => "[" ++ join "," codes ++ "]"

theorem trim_between {first last : Char} (starts : isBlank first = false) (ends : isBlank last = false)
    (inside : List Char) : trim (first :: inside ++ [last]) = first :: inside ++ [last] := by
  have start : trimStart (first :: inside ++ [last]) = first :: inside ++ [last] := by
    rw [trimStart, List.cons_append, List.dropWhile_cons_of_neg (by simp [starts])]
  rw [trim, start]
  exact trimEnd_concat (first :: inside) ends

theorem trimmed_listenerCode (listener : Listener) :
    trimmed (listenerCode listener) = listenerCode listener := by
  obtain same | ⟨same, -⟩ | same := listenerCode_cases listener <;> rw [same]
  · decide
  · rw [trimmed, trimmed, String.toList_ofList, trim_trim]
  · have around := @trim_between 'f' '\x7d' rfl rfl
      ("unction($event)\x7b".toList ++ (wrappedBody listener).toList)
    rw [trimmed, ← String.toList_inj, String.toList_ofList]
    simpa using around

theorem trimmed_eventSource (listeners : List Listener) (event : String) :
    trimmed (eventSource listeners event) = eventSource listeners event := by
  unfold eventSource
  split
  · next code single =>
    have held :
        code ∈ (listeners.filter fun listener => listener.event == event).map listenerCode := by
      rw [single]
      exact List.mem_singleton_self code
    obtain ⟨listener, -, rfl⟩ := List.mem_map.mp held
    exact trimmed_listenerCode listener
  · have around := @trim_between '[' ']' rfl rfl
      (join "," ((listeners.filter fun listener => listener.event == event).map listenerCode)).toList
    rw [trimmed, ← String.toList_inj, String.toList_ofList]
    simpa using around

/-! ## Groups -/

def eventGroup (listeners : List Listener) (event : String) : ListenerGroup :=
  ⟨event, false, (listeners.filter fun listener => listener.event == event).map listenerCode⟩

theorem eventGroup_source (listeners : List Listener) (event : String) :
    (eventGroup listeners event).source = eventSource listeners event := rfl

theorem eventGroup_concat_self (front : List Listener) (listener : Listener) :
    eventGroup (front ++ [listener]) listener.event =
      { eventGroup front listener.event with
        codes := (eventGroup front listener.event).codes ++ [listenerCode listener] } := by
  simp [eventGroup]

theorem eventGroup_concat_other (front : List Listener) {listener : Listener} {event : String}
    (other : listener.event ≠ event) :
    eventGroup (front ++ [listener]) event = eventGroup front event := by
  simp [eventGroup, other]

theorem addToGroups_eventGroups (front : List Listener) {listener : Listener}
    (plain : listener.hasNameExpression = false) {events : List String} (distinct : events.Nodup) :
    addToGroups listener (events.map (eventGroup front)) =
      events.map (eventGroup (front ++ [listener])) ++
        if listener.event ∈ events then [] else [⟨listener.event, false, [listenerCode listener]⟩] := by
  induction events with
  | nil => simp [addToGroups, plain]
  | cons event events ih =>
    obtain ⟨fresh, distinct⟩ := List.nodup_cons.mp distinct
    rw [List.map_cons, List.map_cons, addToGroups]
    by_cases same : event = listener.event
    · subst same
      have others :
          events.map (eventGroup front) = events.map (eventGroup (front ++ [listener])) := by
        apply List.map_congr_left
        intro other held
        have differs : listener.event ≠ other := by
          intro same
          exact fresh (same ▸ held)
        exact (eventGroup_concat_other front differs).symm
      rw [if_pos ⟨rfl, plain.symm⟩, if_pos List.mem_cons_self, List.append_nil,
        eventGroup_concat_self, others]
    · have apart : ¬((eventGroup front event).event = listener.event ∧
          (eventGroup front event).hasNameExpression = listener.hasNameExpression) :=
        fun both => same both.1
      have place : (listener.event ∈ event :: events) = (listener.event ∈ events) := by
        simp [Ne.symm same]
      simp only [place]
      rw [if_neg apart, ih distinct, eventGroup_concat_other front (Ne.symm same), List.cons_append]

theorem nodup_eraseDups (events : List String) : events.eraseDups.Nodup := by
  induction given : events.length using Nat.strong_induction_on generalizing events with
  | _ size ih =>
    cases events with
    | nil => exact List.nodup_nil
    | cons event others =>
      rw [List.eraseDups_cons, List.nodup_cons]
      constructor
      · intro held
        have inside := (List.mem_filter.mp (List.mem_eraseDups.mp held)).2
        simp at inside
      · refine ih _ ?_ _ rfl
        rw [← given, List.length_cons]
        exact Nat.lt_succ_of_le (List.length_filter_le _ _)

/-- There is a group for each event, in the order in which the events come first. -/
theorem listenerGroups_eq {listeners : List Listener}
    (plain : ∀ listener ∈ listeners, listener.hasNameExpression = false) :
    listenerGroups listeners =
      (listeners.map Listener.event).eraseDups.map (eventGroup listeners) := by
  induction listeners using List.reverseRecOn with
  | nil => rfl
  | append_singleton front listener ih =>
    have before := ih fun other held => plain other (List.mem_append_left _ held)
    have last := plain listener (List.mem_append_right _ List.mem_cons_self)
    have step : listenerGroups (front ++ [listener]) = addToGroups listener (listenerGroups front) := by
      simp [listenerGroups]
    have added (events : List String) : [listener.event].removeAll events =
        if listener.event ∈ events then [] else [listener.event] := by
      by_cases known : listener.event ∈ events <;> simp [List.removeAll, known]
    rw [step, before, addToGroups_eventGroups front last (nodup_eraseDups _), List.map_append,
      List.eraseDups_append, List.map_append, List.map_singleton, added]
    congr 1
    simp only [List.mem_eraseDups]
    by_cases known : listener.event ∈ front.map Listener.event
    · rw [if_pos known, if_pos known]
      rfl
    · have none : front.filter (fun other => other.event == listener.event) = [] := by
        rw [List.filter_eq_nil_iff]
        intro other held same
        exact known (List.mem_map.mpr ⟨other, held, by simpa using same⟩)
      have single : [listener.event].eraseDups = [listener.event] := List.eraseDups_cons
      rw [if_neg known, if_neg known, single, List.map_singleton, eventGroup_concat_self, eventGroup,
        none]
      rfl

/-! ## The object of all listeners -/

section Object

variable {listeners : List Listener}
  (plain : ∀ listener ∈ listeners, listener.hasNameExpression = false)
  (balanced : ∀ listener ∈ listeners, imbalance? listener.source = none)

include plain

theorem listenersMeaning_eq :
    listenersMeaning listeners = .listeners ((listeners.map Listener.event).eraseDups.map
      fun event => (.fixed event, eventSource listeners event)) := by
  rw [listenersMeaning, listenerGroups_eq plain, List.map_map]
  congr 2
  funext event
  rw [Function.comp_apply, eventGroup_source, trimmed_eventSource]
  rfl

include balanced

theorem listenersCode_balanced : IsBalanced (listenersCode listeners) := by
  have codes : IsBalanced (join "," ((listenerGroups listeners).map ListenerGroup.code)) := by
    refine IsBalanced.join (by decide) ?_
    intro code held
    obtain ⟨group, inside, rfl⟩ := List.mem_map.mp held
    have stems := groupFrom_listenerGroups listeners group inside
    have own : ∀ code ∈ group.codes, IsBalanced code := by
      intro code held
      obtain ⟨listener, given, rfl⟩ := stems.codes code held
      exact listenerCode_balanced (balanced listener given)
    have key : IsBalanced (keyCode group.event group.hasNameExpression ++ ":") := by
      obtain ⟨listener, given, -, same⟩ := stems.named
      rw [same, plain listener given]
      exact IsBalanced.append (closes_encode group.event) (by decide)
    refine key.append ?_
    split
    · next code single => exact own code (single ▸ List.mem_cons_self)
    · have inside := closes_enclosed (c := '[') rfl rfl
        (IsBalanced.join (by decide : IsBalanced ",") own)
      simpa [IsBalanced] using inside
  have object := closes_enclosed (c := '\x7b') rfl rfl codes
  simpa [IsBalanced, listenersCode, listenerGroups] using object

end Object

/-- Listeners survive: the object that is written for them is read as a list of events, each
of which stands there once, in the order in which they come first, with the code of its only
listener or the list of the codes of all its listeners, in order. -/
theorem listeners_parse {listeners : List Listener} (given : listeners ≠ [])
    (plain : ∀ listener ∈ listeners, listener.hasNameExpression = false)
    (balanced : ∀ listener ∈ listeners, imbalance? listener.source = none)
    (noComma : ∀ listener ∈ listeners, listener.modifiers = [] →
      isFunction (trim listener.source.toList) = true →
      ¬HasOpenComma (trim listener.source.toList)) :
    parseExpression? ("\x7bon:" ++ listenersCode listeners ++ "\x7d") =
      some (.record [(.fixed "on", .listeners ((listeners.map Listener.event).eraseDups.map
        fun event => (.fixed event,
          match (listeners.filter fun listener => listener.event == event).map listenerCode with
          | [code] => code
          | codes => "[" ++ join "," codes ++ "]")))]) := by
  have groups : ∀ group ∈ listenerGroups listeners, GroupReads group :=
    groupReads_of_balanced balanced
      (fun listener held => isUnbroken_of_balanced (balanced listener held) (noComma listener held))
      (fun listener held computed => by rw [plain listener held] at computed; cases computed)
  have filled : listeners.isEmpty = false := by
    rw [List.isEmpty_eq_false_iff]
    exact given
  have fields := (listenersField_read (.inl rfl : "on" = "on" ∨ "on" = "nativeOn") groups).record
  rw [unlessEmpty, filled, if_neg Bool.false_ne_true, if_neg Bool.false_ne_true,
    listenersMeaning_eq plain] at fields
  have written : ("\x7bon:" ++ listenersCode listeners ++ "\x7d").toList =
      '\x7b' :: (withoutLastComma (dataField "on" (listenersCode listeners))).toList ++ ['\x7d'] := by
    have last : (dataField "on" (listenersCode listeners)).toList =
        [("on:" ++ listenersCode listeners).toList].flatMap fun code => code ++ [','] := by
      simp [dataField]
    rw [withoutLastComma_toList last]
    simp [commaList, commaTail]
  have whole : IsBalanced ("\x7bon:" ++ listenersCode listeners ++ "\x7d") := by
    have inside := IsBalanced.append (by decide : IsBalanced "on:")
      (listenersCode_balanced plain balanced)
    have closed := closes_enclosed (c := '\x7b') rfl rfl inside
    simpa [IsBalanced] using closed
  refine parseExpression_of_reads whole ?_
  rw [written]
  exact fields.listed

/-- Two listeners of one event, and one with a modifier between them. -/
def clicks : List Listener :=
  [⟨"click", "(a,b)=>go(a,b)", [], false, ⟨0, 0⟩⟩,
    ⟨"key\x22up", "x = 1, y", ["stop"], false, ⟨0, 0⟩⟩,
    ⟨"click", " a['x,y'] ", [], false, ⟨0, 0⟩⟩]

theorem clicks_parse :
    parseExpression? ("\x7bon:" ++ listenersCode clicks ++ "\x7d") =
      some (.record [(.fixed "on", .listeners
        [(.fixed "click", "[(a,b)=>go(a,b),a['x,y']]"),
          (.fixed "key\x22up", "function($event)\x7b$event.stopPropagation();x = 1, y\x7d")])]) := by
  have given : clicks ≠ [] := by decide
  have parsed := listeners_parse given (by decide) (by decide +kernel) (by decide +kernel)
  exact parsed

end Templating.Rendering
