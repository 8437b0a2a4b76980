import Templating.Proofs.Grammar.Pieces
import Templating.Proofs.Number.Numerals
import Templating.Proofs.Translation.Checked
/-!
# Listeners are read to their end

The function that is written for a listener is one run of pieces when the source
of the listener is balanced.  A path or a function that is written as it is must
have no comma outside its brackets and texts.
-/
set_option autoImplicit false

namespace Templating.Rendering

open Templating.Text Templating.Data Templating.Template Templating.Expression
open Templating.Expression.Grammar

/-! ## Balanced texts -/

def IsBalanced (code : String) : Prop := Closes [] code.toList

instance (code : String) : Decidable (IsBalanced code) :=
  inferInstanceAs (Decidable (imbalanceFrom [] .code code.toList = none))

theorem isBalanced_of_readsAlone {code : String} (reads : readsAlone code = true) :
    IsBalanced code := by
  simp only [readsAlone, Bool.and_eq_true, Option.isNone_iff_eq_none] at reads
  exact reads.1

theorem IsBalanced.append {first second : String} (balanced : IsBalanced first)
    (behind : IsBalanced second) : IsBalanced (first ++ second) := by
  rw [IsBalanced, String.toList_append, closes_append_iff balanced]
  exact behind

theorem IsBalanced.join {separator : String} (between : IsBalanced separator) {codes : List String}
    (balanced : ∀ code ∈ codes, IsBalanced code) : IsBalanced (Text.join separator codes) := by
  induction codes with
  | nil => exact (closes_nil_iff []).mpr rfl
  | cons first others ih =>
    cases others with
    | nil => exact balanced first List.mem_cons_self
    | cons second others =>
      exact ((balanced first List.mem_cons_self).append between).append
        (ih fun other held => balanced other (List.mem_cons_of_mem first held))

theorem IsBalanced.stringJoin {codes : List String} (balanced : ∀ code ∈ codes, IsBalanced code) :
    IsBalanced (String.join codes) := by
  induction codes with
  | nil => exact (closes_nil_iff []).mpr rfl
  | cons first others ih =>
    rw [String.join_cons]
    exact (balanced first List.mem_cons_self).append
      (ih fun other held => balanced other (List.mem_cons_of_mem first held))

theorem IsBalanced.inParentheses {code : String} (balanced : IsBalanced code) :
    IsBalanced ("(" ++ code ++ ")") := by
  have closed := closes_enclosed (c := '(') rfl rfl balanced
  simpa [IsBalanced] using closed

theorem imbalanceFrom_quoted_plain {quote : Char} (quoted : isQuote quote = true) {behind : List Char}
    (plain : ∀ c ∈ behind, isPlain c = true) (expected : List Char) (escaped : Bool) :
    imbalanceFrom expected (.quoted quote escaped) behind ≠ none := by
  induction behind generalizing escaped with
  | nil => simp [imbalanceFrom]
  | cons c others ih =>
    have rest := ih fun d held => plain d (List.mem_cons_of_mem c held)
    cases escaped with
    | true => simpa [imbalanceFrom] using rest false
    | false =>
      have inside : c ≠ quote := by
        rintro rfl
        simp [isQuote_of_plain (plain c List.mem_cons_self)] at quoted
      rw [imbalanceFrom, if_neg inside]
      split
      · exact rest true
      · split
        · simp
        · exact rest false

theorem imbalanceFrom_plain_behind {expected : List Char} {region : Region} {source behind : List Char}
    (plain : ∀ c ∈ behind, isPlain c = true)
    (proper : ∀ quote escaped, region = .quoted quote escaped → isQuote quote = true)
    (balanced : imbalanceFrom expected region (source ++ behind) = none) :
    imbalanceFrom expected region source = none := by
  -- At the end of `source` plain characters close nothing in code, and end no text.
  induction source generalizing expected region with
  | nil =>
    cases region with
    | code =>
      rw [List.nil_append, ← List.append_nil behind] at balanced
      exact (closes_plain_append_iff plain expected []).mp balanced
    | quoted quote escaped =>
      exact absurd balanced
        (imbalanceFrom_quoted_plain (proper quote escaped rfl) plain expected escaped)
  | cons c others ih =>
    rw [List.cons_append] at balanced
    cases region with
    | code =>
      have code : ∀ quote escaped, Region.code = .quoted quote escaped → isQuote quote = true :=
        fun _ _ impossible => by cases impossible
      obtain quoted | ⟨closer, opening⟩ | isCloser | single := char_cases c
      · refine (closes_quote_iff quoted expected others).mpr (ih ?_ ?_)
        · rintro quote escaped ⟨⟩
          exact quoted
        · exact (closes_quote_iff quoted expected _).mp balanced
      · exact (closes_opening_iff opening expected others).mpr
          (ih code ((closes_opening_iff opening expected _).mp balanced))
      · obtain ⟨outer, same, closes⟩ := (closes_closer_iff isCloser expected _).mp balanced
        exact (closes_closer_iff isCloser expected others).mpr ⟨outer, same, ih code closes⟩
      · exact (closes_plain_iff single expected others).mpr
          (ih code ((closes_plain_iff single expected _).mp balanced))
    | quoted quote escaped =>
      have quoted := proper quote escaped rfl
      have stays : ∀ (now : Bool) other escaped', Region.quoted quote now = .quoted other escaped' →
          isQuote other = true := by
        rintro now other escaped' ⟨⟩
        exact quoted
      cases escaped with
      | true => exact ih (stays false) balanced
      | false =>
        rw [imbalanceFrom] at balanced ⊢
        split at balanced
        · next slash => exact (if_pos slash).trans (ih (stays true) balanced)
        · next noSlash =>
          rw [if_neg noSlash]
          split at balanced
          · next ends =>
            rw [if_pos ends]
            exact ih (fun _ _ impossible => by cases impossible) balanced
          · next inside =>
            rw [if_neg inside]
            split at balanced
            · cases balanced
            · next unbroken => exact (if_neg unbroken).trans (ih (stays false) balanced)

theorem isPlain_of_isBlank {c : Char} (blank : isBlank c = true) : isPlain c = true :=
  isPlain_of_class isBlank (by decide) blank

theorem IsBalanced.trimmed {code : String} (balanced : IsBalanced code) :
    IsBalanced (trimmed code) := by
  have blanks : ∀ c ∈ code.toList.takeWhile isBlank, isPlain c = true :=
    fun c held => isPlain_of_isBlank (List.mem_takeWhile_imp held)
  have front := closes_plain_append_iff blanks [] (trimStart code.toList)
  rw [trimStart, List.takeWhile_append_dropWhile] at front
  have start : Closes [] (trimStart code.toList) := front.mp balanced
  have split : trimStart code.toList = trim code.toList ++
      ((trimStart code.toList).reverse.takeWhile isBlank).reverse := by
    rw [trim, trimEnd, ← List.reverse_append, List.takeWhile_append_dropWhile, List.reverse_reverse]
  rw [split] at start
  rw [IsBalanced, Text.trimmed, String.toList_ofList]
  refine imbalanceFrom_plain_behind (fun c held => ?_) (fun _ _ impossible => by cases impossible) start
  exact isPlain_of_isBlank (List.mem_takeWhile_imp (List.mem_reverse.mp held))

theorem IsBalanced.ofPlain {code : String} (plain : ∀ c ∈ code.toList, isPlain c = true) :
    IsBalanced code := by
  have closed := closes_plain_append_iff plain [] []
  rw [List.append_nil] at closed
  exact closed.mpr ((closes_nil_iff []).mpr rfl)

/-! ## Guards -/

theorem guardCode_balanced {condition : String} (balanced : IsBalanced condition) :
    IsBalanced (guardCode condition) := by
  have split : guardCode condition = "if" ++ ("(" ++ condition ++ ")") ++ "return null;" := by
    simp [guardCode, ← String.toList_inj]
  rw [split]
  exact (IsBalanced.append (by decide) balanced.inParentheses).append (by decide)

theorem modifierCode_balanced {modifier code : String} (found : modifierCode? modifier = some code) :
    IsBalanced code := by
  unfold modifierCode? at found
  split at found <;> cases found <;> decide

theorem keyCodes_balanced {key : String} {entry : String × String}
    (found : keyCodes? key = some entry) : IsBalanced entry.1 ∧ IsBalanced entry.2 := by
  unfold keyCodes? at found
  split at found <;> cases found <;> decide

theorem keyCheck_balanced (key : String) : IsBalanced (keyCheck key) := by
  unfold keyCheck
  cases readWord? key.toList with
  | some code =>
    refine IsBalanced.append (by decide) (.ofPlain fun c held => ?_)
    have digits : (toString code).toList = Nat.toDigits 10 code := Nat.toList_repr
    rw [digits] at held
    exact isPlain_of_isAsciiDigit (toDigits_isAsciiDigit code c held)
  | none =>
    have parts : IsBalanced ((keyCodes? key).getD ("undefined", "undefined")).1 ∧
        IsBalanced ((keyCodes? key).getD ("undefined", "undefined")).2 := by
      cases found : keyCodes? key with
      | none => decide
      | some entry => exact keyCodes_balanced found
    generalize (keyCodes? key).getD ("undefined", "undefined") = entry at parts ⊢
    have inside := ((((IsBalanced.append (by decide : IsBalanced "$event.keyCode,")
      (closes_encode key)).append (by decide : IsBalanced ",")).append parts.1).append
      (by decide : IsBalanced ",$event.key,")).append parts.2
    have split : "_k($event.keyCode," ++ Literal.encode key ++ "," ++ entry.1 ++ ",$event.key," ++
        entry.2 ++ ")" = "_k" ++ ("(" ++ ("$event.keyCode," ++ Literal.encode key ++ "," ++ entry.1 ++
          ",$event.key," ++ entry.2) ++ ")") := by
      simp [← String.toList_inj]
    simp only
    rw [split]
    exact IsBalanced.append (by decide) inside.inParentheses

theorem keyFilter_balanced (keys : List String) : IsBalanced (keyFilter keys) := by
  unfold keyFilter
  split
  · decide
  · have checks : IsBalanced (Text.join "&&" (keys.map keyCheck)) := by
      refine IsBalanced.join (by decide) fun code held => ?_
      obtain ⟨key, -, rfl⟩ := List.mem_map.mp held
      exact keyCheck_balanced key
    have split : "if(!$event.type.indexOf('key')&&" ++ Text.join "&&" (keys.map keyCheck) ++
        ")return null;" =
          guardCode ("!$event.type.indexOf('key')&&" ++ Text.join "&&" (keys.map keyCheck)) := by
      simp [guardCode, ← String.toList_inj]
    rw [split]
    exact guardCode_balanced (IsBalanced.append (by decide) checks)

theorem exactGuard_balanced (modifiers : List String) : IsBalanced (exactGuard modifiers) := by
  unfold exactGuard
  simp only
  split
  · decide
  · refine guardCode_balanced (IsBalanced.join (by decide) fun code held => ?_)
    obtain ⟨key, inside, rfl⟩ := List.mem_map.mp held
    have known : key ∈ ["ctrl", "shift", "alt", "meta"] := (List.mem_filter.mp inside).1
    simp only [List.mem_cons, List.not_mem_nil, or_false] at known
    rcases known with rfl | rfl | rfl | rfl <;> decide

theorem guards_balanced (modifiers : List String) : IsBalanced (guards modifiers) := by
  refine (keyFilter_balanced _).append (.stringJoin fun code held => ?_)
  obtain ⟨modifier, -, rfl⟩ := List.mem_map.mp held
  unfold modifierGuard
  cases found : modifierCode? modifier with
  | some code => exact modifierCode_balanced found
  | none =>
    simp only
    split
    · exact exactGuard_balanced modifiers
    · decide

/-! ## The code of one listener -/

/-- The source of the listener is written as it is. -/
def Listener.isBare (listener : Listener) : Bool :=
  let value := trim listener.source.toList
  listener.modifiers.isEmpty && !value.isEmpty && (isPath value || isFunction value)

/-- A source that is written as it is has no comma outside its brackets and
texts. -/
def Listener.IsUnbroken (listener : Listener) : Prop :=
  Listener.isBare listener = true → isUnbroken (trim listener.source.toList) = true

instance : DecidablePred Listener.IsUnbroken := fun listener =>
  inferInstanceAs (Decidable
    (Listener.isBare listener = true → isUnbroken (trim listener.source.toList) = true))

/-- The code is one run of pieces that starts with a visible character. -/
structure IsRun (code : String) : Prop where
  passes : Passes endsListener code.toList
  visible : ∃ c others, code.toList = c :: others ∧ isSeparatingBlank c = false

theorem IsRun.reads {code : String} (run : IsRun code) : ListenerReads code := by
  obtain ⟨c, others, split, visible⟩ := run.visible
  have read := Passes.reads visible (split ▸ run.passes)
  rwa [← split] at read

theorem IsRun.grouped {front inside : String} (opened : IsRun front) {c closer : Char}
    (opening : closerOf? c = some closer) (isCloser : endsNested closer = true)
    (balanced : IsBalanced inside) :
    IsRun (front ++ (String.singleton c ++ inside ++ String.singleton closer)) := by
  obtain ⟨first, others, split, visible⟩ := opened.visible
  refine ⟨?_, first, _, by rw [String.toList_append, split, List.cons_append], visible⟩
  rw [String.toList_append]
  refine opened.passes.append ?_
  have within := Passes.group endsListener opening isCloser (Pieces.ofCloses balanced).passes
  simpa using within

theorem functionCode_split (inside : String) :
    "function($event)\x7b" ++ inside ++ "\x7d" =
      "function($event)" ++ (String.singleton '\x7b' ++ inside ++ String.singleton '\x7d') := by
  simp [← String.toList_inj]

theorem functionCode_isRun {inside : String} (balanced : IsBalanced inside) :
    IsRun ("function($event)\x7b" ++ inside ++ "\x7d") := by
  have front : IsRun "function($event)" :=
    ⟨passes_of_isUnbroken (by decide : IsBalanced "function($event)") (by decide), 'f', _, rfl, by decide⟩
  have whole := front.grouped (c := '\x7b') rfl rfl balanced
  rwa [functionCode_split]

theorem functionCode_balanced {inside : String} (balanced : IsBalanced inside) :
    IsBalanced ("function($event)\x7b" ++ inside ++ "\x7d") := by
  have front : IsBalanced "function($event)" := by decide
  have group := closes_enclosed (c := '\x7b') rfl rfl balanced
  rw [functionCode_split]
  exact front.append (by simpa [IsBalanced] using group)

/-- What stands in the function that is written around a source. -/
def wrappedBody (listener : Listener) : String :=
  let value := trim listener.source.toList
  let source := String.ofList value
  if listener.modifiers.isEmpty then (if isInvocation value then "return " else "") ++ source
  else
    guards listener.modifiers ++
      if isPath value then "return " ++ source ++ ".apply(null, arguments)"
      else if isFunction value then "return (" ++ source ++ ").apply(null, arguments)"
      else if isInvocation value then "return " ++ source
      else source

theorem wrappedBody_balanced {listener : Listener} (balanced : IsBalanced listener.source) :
    IsBalanced (wrappedBody listener) := by
  have source : IsBalanced (String.ofList (trim listener.source.toList)) := balanced.trimmed
  have returned {code : String} (inside : IsBalanced code) : IsBalanced ("return " ++ code) :=
    IsBalanced.append (by decide) inside
  unfold wrappedBody
  simp only
  split
  · split
    · exact returned source
    · exact IsBalanced.append (by decide) source
  · refine (guards_balanced _).append ?_
    split
    · exact (returned source).append (by decide)
    · split
      · have call := (returned source.inParentheses).append
          (by decide : IsBalanced ".apply(null, arguments)")
        simpa [← String.toList_inj, IsBalanced] using call
      · split
        · exact returned source
        · exact source

theorem listenerCode_cases (listener : Listener) :
    listenerCode listener = "function()\x7b\x7d" ∨
      (listenerCode listener = trimmed listener.source ∧ Listener.isBare listener = true) ∨
      listenerCode listener = "function($event)\x7b" ++ wrappedBody listener ++ "\x7d" := by
  unfold listenerCode wrappedBody Listener.isBare
  simp only
  split
  · exact .inl rfl
  · next filled =>
    split
    · next unmodified =>
      split
      · next bare => exact .inr (.inl ⟨rfl, by simp_all⟩)
      · exact .inr (.inr (by simp [← String.toList_inj]))
    · exact .inr (.inr (by simp [← String.toList_inj]))

theorem isSeparatingBlank_of_not_isBlank {c : Char} (visible : isBlank c = false) :
    isSeparatingBlank c = false := by
  by_contra blank
  simp only [isSeparatingBlank, Bool.not_eq_false, Bool.or_eq_true, beq_iff_eq] at blank
  rcases blank with ((rfl | rfl) | rfl) | rfl <;> exact absurd visible (by decide)

theorem trim_eq_cons {source others : List Char} {c : Char} (starts : trim source = c :: others) :
    isBlank c = false := by
  have front : trim source <+: trimStart source := by
    rw [trim, trimEnd, ← List.reverse_suffix, List.reverse_reverse]
    exact List.dropWhile_suffix _
  rw [starts] at front
  obtain ⟨behind, split⟩ := front
  have first : (source.dropWhile isBlank).head? = some c := by
    rw [← trimStart, ← split]
    rfl
  have visible := List.head?_dropWhile_not isBlank source
  simpa [first] using visible

theorem listenerCode_isRun {listener : Listener} (balanced : IsBalanced listener.source)
    (unbroken : Listener.IsUnbroken listener) : IsRun (listenerCode listener) := by
  obtain same | ⟨same, bare⟩ | same := listenerCode_cases listener <;> rw [same]
  · exact ⟨passes_of_isUnbroken (by decide : IsBalanced "function()\x7b\x7d") (by decide), 'f', _,
      rfl, by decide⟩
  · have whole := unbroken bare
    refine ⟨passes_of_isUnbroken balanced.trimmed ?_, ?_⟩
    · rwa [trimmed, String.toList_ofList]
    · cases split : trim listener.source.toList with
      | nil => simp [Listener.isBare, split] at bare
      | cons c others =>
        exact ⟨c, others, by rw [trimmed, String.toList_ofList, split],
          isSeparatingBlank_of_not_isBlank (trim_eq_cons split)⟩
  · exact functionCode_isRun (wrappedBody_balanced balanced)

theorem listenerCode_balanced {listener : Listener} (balanced : IsBalanced listener.source) :
    IsBalanced (listenerCode listener) := by
  obtain same | ⟨same, -⟩ | same := listenerCode_cases listener <;> rw [same]
  · decide
  · exact balanced.trimmed
  · exact functionCode_balanced (wrappedBody_balanced balanced)

/-! ## Groups of listeners -/

structure GroupFrom (listeners : List Listener) (group : ListenerGroup) : Prop where
  named : ∃ listener ∈ listeners,
    group.event = listener.event ∧ group.hasNameExpression = listener.hasNameExpression
  codes : ∀ code ∈ group.codes, ∃ listener ∈ listeners, code = listenerCode listener

theorem groupFrom_addToGroups {listeners : List Listener} {listener : Listener}
    (held : listener ∈ listeners) {groups : List ListenerGroup}
    (stems : ∀ group ∈ groups, GroupFrom listeners group) :
    ∀ group ∈ addToGroups listener groups, GroupFrom listeners group := by
  have own : ∀ code ∈ [listenerCode listener], ∃ other ∈ listeners, code = listenerCode other :=
    fun code inside => ⟨listener, held, List.mem_singleton.mp inside⟩
  induction groups with
  | nil =>
    intro group inside
    obtain rfl := List.mem_singleton.mp inside
    exact ⟨⟨listener, held, rfl, rfl⟩, own⟩
  | cons first others ih =>
    obtain ⟨stemsFirst, stemsOthers⟩ := List.forall_mem_cons.mp stems
    intro group inside
    rw [addToGroups] at inside
    split at inside
    · rcases List.mem_cons.mp inside with rfl | inside
      · refine ⟨stemsFirst.named, fun code found => ?_⟩
        rcases List.mem_append.mp found with found | found
        · exact stemsFirst.codes code found
        · exact own code found
      · exact stemsOthers group inside
    · rcases List.mem_cons.mp inside with rfl | inside
      · exact stemsFirst
      · exact ih stemsOthers group inside

theorem groupFrom_listenerGroups (listeners : List Listener) :
    ∀ group ∈ listenerGroups listeners, GroupFrom listeners group := by
  have run : ∀ (others : List Listener) (groups : List ListenerGroup), others ⊆ listeners →
      (∀ group ∈ groups, GroupFrom listeners group) →
      ∀ group ∈ others.foldl (fun groups listener => addToGroups listener groups) groups,
        GroupFrom listeners group := by
    intro others
    induction others with
    | nil => exact fun _ _ stems => stems
    | cons listener others ih =>
      intro groups inside stems
      obtain ⟨held, insideOthers⟩ := List.cons_subset.mp inside
      exact ih _ insideOthers (groupFrom_addToGroups held stems)
  exact run listeners [] (List.Subset.refl _) (fun _ impossible => by cases impossible)

theorem groupReads_of_balanced {listeners : List Listener}
    (balanced : ∀ listener ∈ listeners, IsBalanced listener.source)
    (unbroken : ∀ listener ∈ listeners, Listener.IsUnbroken listener)
    (named : ∀ listener ∈ listeners, listener.hasNameExpression = true →
      readsAlone listener.event = true) :
    ∀ group ∈ listenerGroups listeners, GroupReads group := by
  intro group held
  have stems := groupFrom_listenerGroups listeners group held
  refine ⟨fun computed => ?_, ?_⟩
  · obtain ⟨listener, inside, event, same⟩ := stems.named
    exact event ▸ named listener inside (same ▸ computed)
  · have codes := stems.codes
    unfold ListenerGroup.source
    split
    · next code single =>
      rw [single] at codes
      obtain ⟨listener, inside, rfl⟩ := codes code List.mem_cons_self
      exact (listenerCode_isRun (balanced listener inside) (unbroken listener inside)).reads
    · have inside : IsBalanced (Text.join "," group.codes) := by
        refine IsBalanced.join (by decide) fun code found => ?_
        obtain ⟨listener, given, rfl⟩ := codes code found
        exact listenerCode_balanced (balanced listener given)
      have passes := Passes.group endsListener (c := '[') rfl rfl (Pieces.ofCloses inside).passes
      have run : IsRun ("[" ++ Text.join "," group.codes ++ "]") :=
        ⟨by simpa using passes, '[', (Text.join "," group.codes).toList ++ [']'], by simp, by decide⟩
      exact run.reads

end Templating.Rendering
