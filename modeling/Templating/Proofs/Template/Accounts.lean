import Templating.Proofs.Template.HeadSpans
import Templating.Proofs.Template.Names
/-!
# What becomes of attributes

Each attribute of a start tag is taken by one rule, or is left for the end.  A rule that
takes an attribute reports it, or writes down what it says in the field that its name asks
for; what is left at the end comes into one of the lists.  Two attributes get lost: a
condition that is blank, and an object of attributes behind which another one comes.
-/
set_option autoImplicit false

namespace Templating.Markup

/-- The value that rules read; an attribute without a value has an empty one. -/
def SourceAttribute.text (item : SourceAttribute) : String := item.value.getD ""

end Templating.Markup

namespace Templating.Template

open Templating.Text Templating.Data Templating.Markup

def Binds (item : SourceAttribute) (name : String) : Prop :=
  item.name = ":" ++ name ∨ item.name = "v-bind:" ++ name

/-- The code of `name` by this attribute: the expression that it binds, or its text as a
literal. -/
inductive Codes (item : SourceAttribute) (name : String) : String → Prop where
  | binding (binds : Binds item name) : Codes item name item.text
  | literal (named : item.name = name) : Codes item name (Literal.encode item.text)

def IsBlankCondition (item : SourceAttribute) : Prop :=
  item.name = "v-if" ∧ allBlank item.text = true

/-- `v-bind` without an argument. -/
def IsSpread (item : SourceAttribute) : Prop :=
  (AttributeName.splitModifiers item.name).1 = "v-bind"

instance (item : SourceAttribute) : Decidable (IsBlankCondition item) :=
  inferInstanceAs (Decidable (_ ∧ _))

instance (item : SourceAttribute) : Decidable (IsSpread item) := inferInstanceAs (Decidable (_ = _))

def IsLastSpread (items : List SourceAttribute) (item : SourceAttribute) : Prop :=
  IsSpread item → ∀ other, [item, other].Sublist items → ¬ IsSpread other

theorem IsLastSpread.fewer {items fewer : List SourceAttribute} {item : SourceAttribute}
    (last : IsLastSpread items item) (part : fewer.Sublist items) : IsLastSpread fewer item := by
  intro spreads other behind
  exact last spreads other (behind.trans part)

/-- The attribute is about structure, and the head says what it says.  A branch that has
joined its element has left its condition there. -/
inductive Structural (condition : Option String) (head : Head) (item : SourceAttribute) : Prop where
  | loop {header : Loop} (named : item.name = "v-for") (read : Loop.parse? item.text = some header)
      (held : head.loop = some header)
  | condition (named : item.name = "v-if") (held : head.condition = some item.text)
  | isElse (named : item.name = "v-else") (held : head.isElse = true)
  | branch (named : item.name = "v-else-if")
      (held : head.branchCondition = some item.text ∨ condition = some item.text)
  | once (named : item.name = "v-once") (held : head.isOnce = true)

/-- The attribute is about the place of the element, or the extensions for classes and
styles own it, and the head says what it says. -/
inductive Settled (head : Head) (item : SourceAttribute) : Prop where
  | key {code : String} (codes : Codes item "key" code) (held : head.key = some code)
  | ref (named : item.name = "ref") (held : head.ref = some (.literal "ref" item.text item.span))
  | boundRef (binds : Binds item "ref")
      (held : head.ref = some ⟨"ref", item.text, true, false, item.span⟩)
  | slot {code : String} (codes : Codes item "slot" code) (held : head.slotTarget = some code)
  | slotName (named : Head.isSlotName item.name = true)
      (held : head.slotTarget = some (Head.slotExpression item.name))
  | outlet {code : String} (tag : head.tag = "slot") (codes : Codes item "name" code)
      (held : head.outletName = some code)
  | component {code : String} (codes : Codes item "is" code) (held : head.component = some code)

/-- The attribute is one that an extension owns, and its code is kept for it. -/
inductive Coded (head : Head) (item : SourceAttribute) : Prop where
  | classes (named : item.name = "class")
      (held : Dictionary.find? "staticClass" head.extensions = some (Web.classCode item.text))
  | boundClass (binds : Binds item "class")
      (held : Dictionary.find? "class" head.extensions = some item.text)
  | styles (named : item.name = "style")
      (held : Dictionary.find? "staticStyle" head.extensions = some (Web.styleCode item.text))
  | boundStyle (binds : Binds item "style")
      (held : Dictionary.find? "style" head.extensions = some ("(" ++ item.text ++ ")"))

section Fields

variable {condition : Option String} {head rest : Head} {item : SourceAttribute}

theorem Structural.congr (structural : Structural condition head item) (loop : rest.loop = head.loop)
    (sameCondition : rest.condition = head.condition) (isElse : rest.isElse = head.isElse)
    (branch : rest.branchCondition = head.branchCondition) (once : rest.isOnce = head.isOnce) :
    Structural condition rest item := by
  cases structural with
  | loop named read held => exact .loop named read (loop.trans held)
  | condition named held => exact .condition named (sameCondition.trans held)
  | isElse named held => exact .isElse named (isElse.trans held)
  | branch named held => exact .branch named (branch ▸ held)
  | once named held => exact .once named (once.trans held)

theorem Settled.congr (settled : Settled head item) (tag : rest.tag = head.tag)
    (key : rest.key = head.key) (ref : rest.ref = head.ref)
    (slotTarget : rest.slotTarget = head.slotTarget) (outletName : rest.outletName = head.outletName)
    (component : rest.component = head.component) : Settled rest item := by
  cases settled with
  | key codes held => exact .key codes (key.trans held)
  | ref named held => exact .ref named (ref.trans held)
  | boundRef binds held => exact .boundRef binds (ref.trans held)
  | slot codes held => exact .slot codes (slotTarget.trans held)
  | slotName named held => exact .slotName named (slotTarget.trans held)
  | outlet outlet codes held => exact .outlet (tag.trans outlet) codes (outletName.trans held)
  | component codes held => exact .component codes (component.trans held)

theorem Coded.congr (coded : Coded head item) (extensions : rest.extensions = head.extensions) :
    Coded rest item := by
  cases coded with
  | classes named held => exact .classes named (extensions ▸ held)
  | boundClass binds held => exact .boundClass binds (extensions ▸ held)
  | styles named held => exact .styles named (extensions ▸ held)
  | boundStyle binds held => exact .boundStyle binds (extensions ▸ held)

end Fields

def Reported (diagnostics : List Diagnostic) (item : SourceAttribute) : Prop :=
  ∃ diagnostic ∈ diagnostics, diagnostic.span = some item.span

def Head.entrySpans (head : Head) : List Span :=
  head.attributes.map Attribute.span ++ head.props.map Attribute.span ++
    head.listeners.map Listener.span ++ head.nativeListeners.map Listener.span ++
    head.directives.map Directive.span

/-- The attribute has not disappeared. -/
inductive Accounted (diagnostics : List Diagnostic) (condition : Option String) (head : Head)
    (item : SourceAttribute) : Prop where
  | reported (reported : Reported diagnostics item)
  | listed (listed : item.span ∈ head.entrySpans)
  | structural (structural : Structural condition head item)
  | settled (settled : Settled head item)
  | coded (coded : Coded head item)
  | spread (spreads : IsSpread item) (held : head.spread = some item.text)
  | verbatim (named : item.name = "v-pre") (held : head.isVerbatim = true)

section Reports

variable {item : SourceAttribute} {diagnostics others : List Diagnostic}

theorem Reported.mono (reported : Reported diagnostics item) (more : diagnostics ⊆ others) :
    Reported others item := by
  obtain ⟨diagnostic, held, here⟩ := reported
  exact ⟨diagnostic, more held, here⟩

theorem Reported.left (reported : Reported diagnostics item) :
    Reported (diagnostics ++ others) item :=
  reported.mono (List.subset_append_left _ _)

theorem Reported.right (reported : Reported others item) : Reported (diagnostics ++ others) item :=
  reported.mono (List.subset_append_right _ _)

theorem reported_errorAt (problem : Problem) : Reported [.errorAt item.span problem] item :=
  ⟨_, List.mem_singleton_self _, rfl⟩

end Reports

/-- Of the attributes that were left before, all are left or claimed. -/
structure Takes (before after : List SourceAttribute) (claim : SourceAttribute → Prop) : Prop where
  left : after.Sublist before
  all : ∀ item ∈ before, item ∈ after ∨ claim item

theorem Takes.refl (items : List SourceAttribute) (claim : SourceAttribute → Prop) :
    Takes items items claim :=
  ⟨List.Sublist.refl _, fun _ held => .inl held⟩

theorem Takes.claim {before after : List SourceAttribute} {item : SourceAttribute}
    {claim : SourceAttribute → Prop} (takes : Takes before after (· = item)) (claimed : claim item) :
    Takes before after claim where
  left := takes.left
  all := by
    intro other held
    rcases takes.all other held with left | rfl
    · exact .inl left
    · exact .inr claimed

namespace Head

variable {head rest : Head} {item : SourceAttribute}

/-! ## Structure -/

theorem takeFirst_spec {accepts : SourceAttribute → Bool}
    (taken : head.takeFirst? accepts = some (item, rest)) :
    accepts item = true ∧ ∃ pending, rest = { head with pending } ∧
      Takes head.pending pending (· = item) := by
  obtain ⟨found, first, same⟩ := Option.map_eq_some_iff.mp taken
  cases same
  refine ⟨List.find?_some first, _, rfl, List.eraseP_sublist, ?_⟩
  intro other held
  obtain ⟨before, behind, split, none⟩ := (List.find?_eq_some_iff_append.mp first).2
  rw [split] at held ⊢
  rw [List.eraseP_append_right _ (by simpa using none),
    List.eraseP_cons_of_pos (List.find?_some first)]
  rcases List.mem_append.mp held with held | held
  · exact .inl (List.mem_append_left _ held)
  · rcases List.mem_cons.mp held with same | held
    · exact .inr same
    · exact .inl (List.mem_append_right _ held)

theorem take_spec {name : String} (taken : head.take? name = some (item, rest)) :
    item.name = name ∧ ∃ pending, rest = { head with pending } ∧
      Takes head.pending pending (· = item) := by
  obtain ⟨named, others⟩ := takeFirst_spec taken
  exact ⟨eq_of_beq named, others⟩

theorem takeBinding_spec {name : String} (taken : head.takeBinding? name = some (item, rest)) :
    Binds item name ∧ ∃ pending, rest = { head with pending } ∧
      Takes head.pending pending (· = item) := by
  obtain ⟨named, others⟩ := takeFirst_spec taken
  refine ⟨?_, others⟩
  rcases Bool.or_eq_true_iff.mp named with short | long
  · exact .inl (eq_of_beq short)
  · exact .inr (eq_of_beq long)

theorem takeLoop_spec (head : Head) : ∃ pending loop, head.takeLoop.1 = { head with pending, loop } ∧
    Takes head.pending pending fun item => Reported head.takeLoop.2 item ∨
      item.name = "v-for" ∧ ∃ header, Loop.parse? item.text = some header ∧ loop = some header := by
  unfold takeLoop
  cases taken : head.take? "v-for" with
  | none => exact ⟨head.pending, head.loop, rfl, .refl _ _⟩
  | some found =>
    obtain ⟨item, rest⟩ := found
    obtain ⟨named, pending, rfl, others⟩ := take_spec taken
    simp only
    cases read : Loop.parse? (item.value.getD "") with
    | some header =>
      exact ⟨pending, some header, rfl, others.claim (.inr ⟨named, header, read, rfl⟩)⟩
    | none =>
      exact ⟨pending, head.loop, rfl, others.claim (.inl (reported_errorAt _))⟩

theorem takeCondition_spec (head : Head) : ∃ pending condition isElse branchCondition,
    head.takeCondition.1 = { head with pending, condition, isElse, branchCondition } ∧
      Takes head.pending pending fun item => IsBlankCondition item ∨
        (item.name = "v-if" ∧ condition = some item.text) ∨ (item.name = "v-else" ∧ isElse = true) ∨
          item.name = "v-else-if" ∧ branchCondition = some item.text := by
  unfold takeCondition
  cases taken : head.take? "v-if" with
  | some found =>
    obtain ⟨item, rest⟩ := found
    obtain ⟨named, pending, rfl, others⟩ := take_spec taken
    simp only
    split
    · next blank =>
      exact ⟨pending, head.condition, head.isElse, head.branchCondition, rfl,
        others.claim (.inl ⟨named, blank⟩)⟩
    · exact ⟨pending, some (item.value.getD ""), head.isElse, head.branchCondition, rfl,
      others.claim (.inr (.inl ⟨named, rfl⟩))⟩
  | none =>
    simp only
    cases taken : head.take? "v-else" with
    | some found =>
      obtain ⟨item, rest⟩ := found
      obtain ⟨named, pending, rfl, others⟩ := take_spec taken
      exact ⟨pending, head.condition, true, head.branchCondition, rfl,
        others.claim (.inr (.inr (.inl ⟨named, rfl⟩)))⟩
    | none =>
      simp only
      cases taken : head.take? "v-else-if" with
      | some found =>
        obtain ⟨item, rest⟩ := found
        obtain ⟨named, pending, rfl, others⟩ := take_spec taken
        exact ⟨pending, head.condition, head.isElse, some (item.value.getD ""), rfl,
          others.claim (.inr (.inr (.inr ⟨named, rfl⟩)))⟩
      | none =>
        exact ⟨head.pending, head.condition, head.isElse, head.branchCondition, rfl,
          .refl _ _⟩

theorem takeOnce_spec (head : Head) : ∃ pending isOnce, head.takeOnce = { head with pending, isOnce } ∧
    Takes head.pending pending fun item => item.name = "v-once" ∧ isOnce = true := by
  unfold takeOnce
  cases taken : head.take? "v-once" with
  | none => exact ⟨head.pending, head.isOnce, rfl, .refl _ _⟩
  | some found =>
    obtain ⟨item, rest⟩ := found
    obtain ⟨named, pending, rfl, others⟩ := take_spec taken
    exact ⟨pending, true, rfl, others.claim (⟨named, rfl⟩)⟩

/-- An attribute behind the rules on structure. -/
inductive Waits (diagnostics : List Diagnostic) (head : Head) (item : SourceAttribute) : Prop where
  | pending (held : item ∈ head.pending)
  | blank (blank : IsBlankCondition item)
  | reported (reported : Reported diagnostics item)
  | structural (structural : Structural none head item)

theorem takeStructure_waits (head : Head) :
    head.takeStructure.1.isVerbatim = head.isVerbatim ∧
      head.takeStructure.1.pending.Sublist head.pending ∧
      ∀ item ∈ head.pending, head.takeStructure.1.Waits head.takeStructure.2 item := by
  obtain ⟨firstPending, loop, looped, first⟩ := takeLoop_spec head
  unfold takeStructure
  simp only
  generalize head.takeLoop.2 = loopDiagnostics at first ⊢
  rw [looped]
  obtain ⟨pending, condition, isElse, branchCondition, conditioned, second⟩ :=
    takeCondition_spec { head with pending := firstPending, loop }
  generalize Head.takeCondition { head with pending := firstPending, loop } = found at conditioned ⊢
  rw [conditioned]
  obtain ⟨last, isOnce, onced, third⟩ := takeOnce_spec
    { head with pending, loop, condition, isElse, branchCondition }
  rw [onced]
  refine ⟨rfl, third.left.trans (second.left.trans first.left), fun item held => ?_⟩
  rcases first.all item held with held | reported | ⟨named, header, read, rfl⟩
  · rcases second.all item held with held | blank | ⟨named, rfl⟩ | ⟨named, rfl⟩ | ⟨named, rfl⟩
    · rcases third.all item held with held | ⟨named, rfl⟩
      · exact .pending held
      · exact .structural (.once named rfl)
    · exact .blank blank
    · exact .structural (.condition named rfl)
    · exact .structural (.isElse named rfl)
    · exact .structural (.branch named (.inl rfl))
  · exact .reported reported.left
  · exact .structural (.loop named read rfl)

/-! ## The place of the element -/

theorem takeExpression_spec {name code : String} {span : Span}
    (taken : head.takeExpression? name = some (code, span, rest)) :
    ∃ item : SourceAttribute, Codes item name code ∧ span = item.span ∧
      ∃ pending, rest = { head with pending } ∧ Takes head.pending pending (· = item) := by
  unfold takeExpression? at taken
  split at taken
  · next item behind bound =>
    cases taken
    obtain ⟨binds, others⟩ := takeBinding_spec bound
    exact ⟨item, .binding binds, rfl, others⟩
  · obtain ⟨⟨item, behind⟩, found, same⟩ := Option.map_eq_some_iff.mp taken
    cases same
    obtain ⟨named, others⟩ := take_spec found
    exact ⟨item, .literal named, rfl, others⟩

theorem takeKey_spec (head : Head) : ∃ pending key, head.takeKey.1 = { head with pending, key } ∧
    Takes head.pending pending fun item => Reported head.takeKey.2 item ∨
      ∃ code, Codes item "key" code ∧ key = some code := by
  unfold takeKey
  cases taken : head.takeExpression? "key" with
  | none => exact ⟨head.pending, head.key, rfl, .refl _ _⟩
  | some found =>
    obtain ⟨code, span, rest⟩ := found
    obtain ⟨item, codes, rfl, pending, rfl, others⟩ := takeExpression_spec taken
    simp only
    split
    · exact ⟨pending, head.key, rfl, others.claim (.inl (reported_errorAt _))⟩
    · exact ⟨pending, some code, rfl, others.claim (.inr ⟨code, codes, rfl⟩)⟩

theorem takeRef_spec (head : Head) : ∃ pending ref, head.takeRef = { head with pending, ref } ∧
    Takes head.pending pending fun item =>
      (item.name = "ref" ∧ ref = some (.literal "ref" item.text item.span)) ∨
        Binds item "ref" ∧ ref = some ⟨"ref", item.text, true, false, item.span⟩ := by
  unfold takeRef
  cases bound : head.takeBinding? "ref" with
  | some found =>
    obtain ⟨item, rest⟩ := found
    obtain ⟨binds, pending, rfl, others⟩ := takeBinding_spec bound
    exact ⟨pending, _, rfl, others.claim (.inr ⟨binds, rfl⟩)⟩
  | none =>
    simp only
    cases taken : head.take? "ref" with
    | none => exact ⟨head.pending, head.ref, rfl, .refl _ _⟩
    | some found =>
      obtain ⟨item, rest⟩ := found
      obtain ⟨named, pending, rfl, others⟩ := take_spec taken
      exact ⟨pending, _, rfl, others.claim (.inl ⟨named, rfl⟩)⟩

theorem takeSlotTarget_spec (head : Head) : ∃ pending slotTarget,
    head.takeSlotTarget.1 = { head with pending, slotTarget } ∧
      Takes head.pending pending fun item =>
        (∃ code, Codes item "slot" code ∧ slotTarget = some code) ∨
          isSlotName item.name = true ∧ slotTarget = some (slotExpression item.name) := by
  unfold takeSlotTarget
  cases taken : head.takeExpression? "slot" with
  | some found =>
    obtain ⟨code, span, rest⟩ := found
    obtain ⟨item, codes, -, pending, rfl, others⟩ := takeExpression_spec taken
    exact ⟨pending, some code, rfl, others.claim (.inl ⟨code, codes, rfl⟩)⟩
  | none =>
    simp only
    cases first : head.takeFirst? fun item => isSlotName item.name with
    | none => exact ⟨head.pending, head.slotTarget, rfl, .refl _ _⟩
    | some found =>
      obtain ⟨item, rest⟩ := found
      obtain ⟨named, pending, rfl, others⟩ := takeFirst_spec first
      exact ⟨pending, some (slotExpression item.name), rfl, others.claim (.inr ⟨named, rfl⟩)⟩

theorem takeOutlet_spec (head : Head) : ∃ pending outletName,
    head.takeOutlet.1 = { head with pending, outletName } ∧
      Takes head.pending pending fun item =>
        ∃ code, head.tag = "slot" ∧ Codes item "name" code ∧ outletName = some code := by
  unfold takeOutlet
  split
  · next tag =>
    cases taken : head.takeExpression? "name" with
    | none => exact ⟨head.pending, head.outletName, rfl, .refl _ _⟩
    | some found =>
      obtain ⟨code, span, rest⟩ := found
      obtain ⟨item, codes, -, pending, rfl, others⟩ := takeExpression_spec taken
      exact ⟨pending, some code, rfl, others.claim (⟨code, eq_of_beq tag, codes, rfl⟩)⟩
  · exact ⟨head.pending, head.outletName, rfl, .refl _ _⟩

theorem takeComponent_spec (head : Head) : ∃ pending component,
    head.takeComponent = { head with pending, component } ∧
      Takes head.pending pending fun item => ∃ code, Codes item "is" code ∧ component = some code := by
  unfold takeComponent
  cases taken : head.takeExpression? "is" with
  | none => exact ⟨head.pending, head.component, rfl, .refl _ _⟩
  | some found =>
    obtain ⟨code, span, rest⟩ := found
    obtain ⟨item, codes, -, pending, rfl, others⟩ := takeExpression_spec taken
    exact ⟨pending, some code, rfl, others.claim (⟨code, codes, rfl⟩)⟩

def settle (head : Head) : Head × List Diagnostic :=
  let targeted := head.takeKey.1.takeRef.takeSlotTarget
  (targeted.1.takeOutlet.1.takeComponent, head.takeKey.2 ++ targeted.2 ++ targeted.1.takeOutlet.2)

theorem settle_spec (head : Head) : ∃ pending key ref slotTarget outletName component,
    head.settle.1 = { head with pending, key, ref, slotTarget, outletName, component } ∧
      Takes head.pending pending fun item => Reported head.settle.2 item ∨
        Settled head.settle.1 item := by
  obtain ⟨firstPending, key, keyed, first⟩ := takeKey_spec head
  unfold settle
  simp only
  generalize head.takeKey.2 = diagnostics at first ⊢
  rw [keyed]
  obtain ⟨secondPending, ref, referred, second⟩ := takeRef_spec { head with pending := firstPending, key }
  rw [referred]
  obtain ⟨thirdPending, slotTarget, targeted, third⟩ :=
    takeSlotTarget_spec { head with pending := secondPending, key, ref }
  rw [targeted]
  obtain ⟨fourthPending, outletName, outlet, fourth⟩ :=
    takeOutlet_spec { head with pending := thirdPending, key, ref, slotTarget }
  rw [outlet]
  obtain ⟨pending, component, stands, last⟩ :=
    takeComponent_spec { head with pending := fourthPending, key, ref, slotTarget, outletName }
  rw [stands]
  have fewer := last.left.trans (fourth.left.trans (third.left.trans (second.left.trans first.left)))
  refine ⟨pending, key, ref, slotTarget, outletName, component, rfl, fewer, fun item held => ?_⟩
  rcases first.all item held with held | reported | ⟨code, codes, rfl⟩
  · rcases second.all item held with held | ⟨named, rfl⟩ | ⟨binds, rfl⟩
    · rcases third.all item held with held | ⟨code, codes, rfl⟩ | ⟨named, rfl⟩
      · rcases fourth.all item held with held | ⟨code, tag, codes, rfl⟩
        · rcases last.all item held with held | ⟨code, codes, rfl⟩
          · exact .inl held
          · exact .inr (.inr (.component codes rfl))
        · exact .inr (.inr (.outlet tag codes rfl))
      · exact .inr (.inr (.slot codes rfl))
      · exact .inr (.inr (.slotName named rfl))
    · exact .inr (.inr (.ref named rfl))
    · exact .inr (.inr (.boundRef binds rfl))
  · exact .inr (.inl reported.left.left)
  · exact .inr (.inr (.key codes rfl))

end Head

/-! ## Classes and styles -/

theorem takeBound_spec (name : String) (boundCode : String → String) (head : Head)
    (diagnostics : List Diagnostic) :
    ∃ pending extensions,
      (match head.takeBinding? name with
        | none => (head, diagnostics)
        | some (item, rest) =>
          ({ rest with
              extensions := Dictionary.insert name (boundCode (item.value.getD "")) rest.extensions },
            diagnostics)).1 = { head with pending, extensions } ∧
        (∀ key, key ≠ name → Dictionary.find? key extensions = Dictionary.find? key head.extensions) ∧
        Takes head.pending pending fun item =>
          Binds item name ∧ Dictionary.find? name extensions = some (boundCode item.text) := by
  cases taken : head.takeBinding? name with
  | none => exact ⟨head.pending, head.extensions, rfl, fun _ _ => rfl, .refl _ _⟩
  | some found =>
    obtain ⟨item, rest⟩ := found
    obtain ⟨binds, pending, rfl, others⟩ := Head.takeBinding_spec taken
    refine ⟨pending, _, rfl, fun key other => ?_, others.claim ⟨binds, ?_⟩⟩
    · rw [Dictionary.find?_insert, if_neg other]
    · rw [Dictionary.find?_insert, if_pos rfl, SourceAttribute.text]

theorem takeBoth_spec (name staticKey : String) (apart : name ≠ staticKey)
    (staticCode boundCode : String → String) (delimiters : Delimiters) (head : Head) :
    ∃ pending extensions,
      (Web.takeBoth name staticKey staticCode boundCode delimiters head).1 =
          { head with pending, extensions } ∧
        (∀ key, key ≠ name → key ≠ staticKey →
          Dictionary.find? key extensions = Dictionary.find? key head.extensions) ∧
        Takes head.pending pending fun item =>
          (item.name = name ∧ Dictionary.find? staticKey extensions = some (staticCode item.text)) ∨
            Binds item name ∧ Dictionary.find? name extensions = some (boundCode item.text) := by
  unfold Web.takeBoth
  cases taken : head.take? name with
  | none =>
    obtain ⟨pending, extensions, same, kept, all⟩ := takeBound_spec name boundCode head []
    refine ⟨pending, extensions, same, fun key other _ => kept key other, all.left, ?_⟩
    intro item held
    exact (all.all item held).imp_right .inr
  | some found =>
    obtain ⟨item, rest⟩ := found
    obtain ⟨named, firstPending, rfl, others⟩ := Head.take_spec taken
    simp only
    obtain ⟨pending, extensions, same, kept, all⟩ := takeBound_spec name boundCode
      { head with
        pending := firstPending
        extensions := Dictionary.insert staticKey (staticCode (item.value.getD "")) head.extensions }
      (if hasInterpolation delimiters (item.value.getD "") then
        [.errorAt item.span (.attributeInterpolation name (item.value.getD "") name)] else [])
    refine ⟨pending, extensions, same, fun key other apart => ?_, all.left.trans others.left, ?_⟩
    · rw [kept key other, Dictionary.find?_insert, if_neg apart]
    · intro other held
      rcases others.all other held with held | rfl
      · exact (all.all other held).imp_right .inr
      · refine .inr (.inl ⟨named, ?_⟩)
        rw [kept staticKey (Ne.symm apart), Dictionary.find?_insert, if_pos rfl, SourceAttribute.text]

theorem platformExtensions_spec (delimiters : Delimiters) (head : Head) : ∃ pending extensions,
    (Head.applyExtensions delimiters [Web.classExtension, Web.styleExtension] head).1 =
        { head with pending, extensions } ∧
      Takes head.pending pending fun item =>
        Coded (Head.applyExtensions delimiters [Web.classExtension, Web.styleExtension] head).1 item := by
  obtain ⟨firstPending, firstCodes, classed, -, first⟩ :=
    takeBoth_spec "class" "staticClass" (by decide) Web.classCode id delimiters head
  obtain ⟨pending, codes, styled, kept, second⟩ :=
    takeBoth_spec "style" "staticStyle" (by decide) Web.styleCode (fun value => "(" ++ value ++ ")")
      delimiters { head with pending := firstPending, extensions := firstCodes }
  have both : (Head.applyExtensions delimiters [Web.classExtension, Web.styleExtension] head).1 =
      { head with pending, extensions := codes } := by
    simp only [Head.applyExtensions, Web.classExtension, Web.styleExtension, classed, styled]
  refine ⟨pending, codes, both, second.left.trans first.left, fun item held => ?_⟩
  rw [both]
  rcases first.all item held with held | ⟨named, held⟩ | ⟨binds, held⟩
  · rcases second.all item held with held | ⟨named, held⟩ | ⟨binds, held⟩
    · exact .inl held
    · exact .inr (.styles named held)
    · exact .inr (.boundStyle binds held)
  · exact .inr (.classes named ((kept _ (by decide) (by decide)).trans held))
  · exact .inr (.boundClass binds ((kept _ (by decide) (by decide)).trans held))

/-! ## What is left -/

namespace Head

variable {head rest : Head}

/-- Only lists have grown, and the object of attributes may be another one. -/
structure Lists (head rest : Head) : Prop where
  same : rest = { head with
    attributes := rest.attributes, props := rest.props, listeners := rest.listeners
    nativeListeners := rest.nativeListeners, directives := rest.directives, spread := rest.spread }
  entries : head.entrySpans ⊆ rest.entrySpans

theorem Lists.refl (head : Head) : head.Lists head := ⟨rfl, List.Subset.refl _⟩

theorem Lists.trans {between : Head} (first : head.Lists between) (second : between.Lists rest) :
    head.Lists rest where
  same := by
    rw [second.same, first.same]
  entries := List.Subset.trans first.entries second.entries

theorem mem_entrySpans {span : Span} : span ∈ head.entrySpans ↔
    span ∈ head.attributes.map Attribute.span ∨ span ∈ head.props.map Attribute.span ∨
      span ∈ head.listeners.map Listener.span ∨ span ∈ head.nativeListeners.map Listener.span ∨
        span ∈ head.directives.map Directive.span := by
  simp only [entrySpans, List.mem_append, or_assoc]

theorem lists_of_more {attributes props : List Attribute} {listeners nativeListeners : List Listener}
    {directives : List Directive} (moreAttributes : head.attributes ⊆ attributes)
    (moreProps : head.props ⊆ props) (moreListeners : head.listeners ⊆ listeners)
    (moreNative : head.nativeListeners ⊆ nativeListeners)
    (moreDirectives : head.directives ⊆ directives) :
    head.Lists { head with attributes, props, listeners, nativeListeners, directives } := by
  refine ⟨rfl, fun span held => ?_⟩
  rw [mem_entrySpans] at held ⊢
  rcases held with held | held | held | held | held
  · exact .inl (List.map_subset _ moreAttributes held)
  · exact .inr (.inl (List.map_subset _ moreProps held))
  · exact .inr (.inr (.inl (List.map_subset _ moreListeners held)))
  · exact .inr (.inr (.inr (.inl (List.map_subset _ moreNative held))))
  · exact .inr (.inr (.inr (.inr (List.map_subset _ moreDirectives held))))

/-- The head has grown by an entry at `span`, and the object of attributes is the same. -/
structure Adds (span : Span) (head rest : Head) : Prop extends Lists head rest where
  spread : rest.spread = head.spread
  listed : span ∈ rest.entrySpans

theorem Adds.ite {condition : Prop} [Decidable condition] {other : Head} {span : Span}
    (first : head.Adds span rest) (second : head.Adds span other) :
    head.Adds span (if condition then rest else other) := by
  split
  · exact first
  · exact second

theorem adds_attribute (head : Head) (item : Attribute) :
    head.Adds item.span { head with attributes := head.attributes ++ [item] } where
  toLists := lists_of_more (List.subset_append_left _ _) (List.Subset.refl _) (List.Subset.refl _)
    (List.Subset.refl _) (List.Subset.refl _)
  spread := rfl
  listed := mem_entrySpans.mpr (.inl (List.mem_map_of_mem (by simp)))

theorem adds_prop (head : Head) (item : Attribute) :
    head.Adds item.span { head with props := head.props ++ [item] } where
  toLists := lists_of_more (List.Subset.refl _) (List.subset_append_left _ _) (List.Subset.refl _)
    (List.Subset.refl _) (List.Subset.refl _)
  spread := rfl
  listed := mem_entrySpans.mpr (.inr (.inl (List.mem_map_of_mem (by simp))))

theorem adds_listener (head : Head) (listener : Listener) :
    head.Adds listener.span { head with listeners := head.listeners ++ [listener] } where
  toLists := lists_of_more (List.Subset.refl _) (List.Subset.refl _) (List.subset_append_left _ _)
    (List.Subset.refl _) (List.Subset.refl _)
  spread := rfl
  listed := mem_entrySpans.mpr (.inr (.inr (.inl (List.mem_map_of_mem (by simp)))))

theorem adds_nativeListener (head : Head) (listener : Listener) :
    head.Adds listener.span { head with nativeListeners := head.nativeListeners ++ [listener] } where
  toLists := lists_of_more (List.Subset.refl _) (List.Subset.refl _) (List.Subset.refl _)
    (List.subset_append_left _ _) (List.Subset.refl _)
  spread := rfl
  listed := mem_entrySpans.mpr (.inr (.inr (.inr (.inl (List.mem_map_of_mem (by simp))))))

theorem adds_directive (head : Head) (directive : Directive) :
    head.Adds directive.span { head with directives := head.directives ++ [directive] } where
  toLists := lists_of_more (List.Subset.refl _) (List.Subset.refl _) (List.Subset.refl _)
    (List.Subset.refl _) (List.subset_append_left _ _)
  spread := rfl
  listed := mem_entrySpans.mpr (.inr (.inr (.inr (.inr (List.mem_map_of_mem (by simp))))))

theorem addListener_adds (listener : Listener) (head : Head) :
    head.Adds listener.span (head.addListener listener).1 := by
  unfold addListener
  simp only
  generalize marked : (if listener.hasNameExpression then listener
    else eventMarks.foldl markEvent (renameClick listener)) = named
  have span : named.span = listener.span := by
    rw [← marked]
    split
    · rfl
    · rw [eventMarks_span, renameClick_span]
  rw [← span]
  split
  · exact adds_nativeListener head { named with modifiers := named.modifiers.filter (· != "native") }
  · exact adds_listener head { named with modifiers := named.modifiers.filter (· != "native") }

theorem addBinding_adds (platform : Platform) (given : String) (modifiers : List String)
    (value : String) (span : Span) (head : Head) :
    head.Adds span (head.addBinding platform given modifiers value span).1 := by
  unfold addBinding
  simp only
  generalize synced : (if !(AttributeName.argument given).2 && modifiers.contains "sync" then
    { head with
      listeners := head.listeners ++
        [⟨"update:" ++ AttributeName.camelize (AttributeName.argument given).1, value ++ "=$event", [],
          false, span⟩] } else head) = before
  have first : head.Lists before ∧ before.spread = head.spread := by
    rw [← synced]
    split
    · have added := adds_listener head ⟨"update:" ++ AttributeName.camelize
        (AttributeName.argument given).1, value ++ "=$event", [], false, span⟩
      exact ⟨added.toLists, added.spread⟩
    · exact ⟨.refl head, rfl⟩
  have further {rest : Head} (adds : before.Adds span rest) : head.Adds span rest :=
    ⟨first.1.trans adds.toLists, adds.spread.trans first.2, adds.listed⟩
  refine Adds.ite ?_ ?_
  · exact further (adds_prop before ⟨_, value, true, _, span⟩)
  · exact further (adds_attribute before ⟨_, value, true, _, span⟩)

/-- What an attribute is that is left: an entry, a report, or the object of attributes. -/
inductive Comes (head rest : Head) (diagnostics : List Diagnostic) (item : SourceAttribute) : Prop where
  | added (adds : head.Adds item.span rest)
  | reported (same : rest = head) (reported : Reported diagnostics item)
  | spread (spreads : IsSpread item) (same : rest = { head with spread := some item.text })

/-- Without an argument all behind the lead is the name of the directive. -/
theorem addDirective_comes {item : SourceAttribute} {rest : String}
    (found : AttributeName.after? "v-" (AttributeName.splitModifiers item.name).1 = some rest)
    (head : Head) :
    head.Comes (head.addDirective rest item.name (AttributeName.splitModifiers item.name).2
      (item.value.getD "") item.span) [] item := by
  unfold addDirective
  cases cut : cutAt? ':' rest.toList with
  | some parts =>
    simp only [Option.isNone_some, Bool.and_false, Bool.false_eq_true, if_false]
    exact .added (adds_directive head ⟨_, item.name, _, _, _, item.value.getD "", item.span⟩)
  | none =>
    simp only [Option.isNone_none, Bool.and_true]
    split
    · next named =>
      obtain rfl : rest = "bind" := eq_of_beq named
      have whole := (after_eq_some_iff "v-" _ "bind").mp found
      exact .spread (String.toList_inj.mp whole) rfl
    · exact .added (adds_directive head ⟨_, item.name, _, _, _, item.value.getD "", item.span⟩)

theorem addAttribute_comes (settings : Settings) (head : Head) (item : SourceAttribute) :
    head.Comes (head.addAttribute settings item).1 (head.addAttribute settings item).2 item := by
  unfold addAttribute
  simp only
  split
  · split
    · exact .added (addBinding_adds ..)
    · split
      · next event _ =>
        have added := addListener_adds ⟨(AttributeName.argument event).1, item.value.getD "",
          (AttributeName.splitModifiers item.name).2, (AttributeName.argument event).2, item.span⟩ head
        exact .added added
      · split
        · next rest found => exact addDirective_comes found head
        · exact .reported rfl (reported_errorAt _)
  · have added := adds_attribute head (.literal item.name (item.value.getD "") item.span)
    exact .added added

theorem addAttributes_spread (settings : Settings) {items : List SourceAttribute}
    (none : ∀ item ∈ items, ¬ IsSpread item) :
    (addAttributes settings items head).1.spread = head.spread := by
  induction items generalizing head with
  | nil => rfl
  | cons first rest ih =>
    obtain ⟨here, others⟩ := List.forall_mem_cons.mp none
    have next : (head.addAttribute settings first).1.spread = head.spread := by
      cases addAttribute_comes settings head first with
      | added adds => exact adds.spread
      | reported same _ => rw [same]
      | spread spreads _ => exact absurd spreads here
    exact (ih others).trans next

theorem addAttributes_spec (settings : Settings) (items : List SourceAttribute) (head : Head) :
    head.Lists (addAttributes settings items head).1 ∧
      ∀ item ∈ items, IsLastSpread items item →
        item.span ∈ (addAttributes settings items head).1.entrySpans ∨
          Reported (addAttributes settings items head).2 item ∨
            IsSpread item ∧ (addAttributes settings items head).1.spread = some item.text := by
  induction items generalizing head with
  | nil => exact ⟨.refl head, List.forall_mem_nil _⟩
  | cons first rest ih =>
    have comes := addAttribute_comes settings head first
    obtain ⟨lists, others⟩ := ih (head.addAttribute settings first).1
    have before : head.Lists (head.addAttribute settings first).1 := by
      cases comes with
      | added adds => exact adds.toLists
      | reported same _ =>
        rw [same]
        exact .refl head
      | spread spreads same =>
        rw [same]
        exact ⟨rfl, List.Subset.refl _⟩
    refine ⟨before.trans lists, fun item held last => ?_⟩
    unfold addAttributes
    simp only
    rcases List.mem_cons.mp held with rfl | held
    · cases comes with
      | added adds => exact .inl (lists.entries adds.listed)
      | reported _ reported => exact .inr (.inl reported.left)
      | spread spreads same =>
        have none : ∀ other ∈ rest, ¬ IsSpread other := fun other inside =>
          last spreads other (List.Sublist.cons_cons item (List.singleton_sublist.mpr inside))
        exact .inr (.inr ⟨spreads, (addAttributes_spread settings none).trans (by rw [same])⟩)
    · rcases others item held (last.fewer (List.sublist_cons_self _ _)) with listed | reported | spread
      · exact .inl listed
      · exact .inr (.inl reported.right)
      · exact .inr (.inr spread)

/-! ## Closing -/

theorem complete_eq (settings : Settings) (head : Head) :
    head.complete settings =
      let extended := applyExtensions settings.delimiters settings.extensions head.settle.1
      let left := addAttributes settings extended.1.pending { extended.1 with pending := [] }
      (left.1, head.settle.2 ++ extended.2 ++ left.2) := rfl

/-- Behind all rules nothing waits any more, and what the rules on structure have written
down is still there. -/
theorem complete_accounts {settings : Settings}
    (platform : settings.extensions = [Web.classExtension, Web.styleExtension]) (head : Head)
    {item : SourceAttribute} {diagnostics : List Diagnostic} (waits : head.Waits diagnostics item)
    (visible : ¬ IsBlankCondition item) (last : IsLastSpread head.pending item) :
    Accounted (diagnostics ++ (head.complete settings).2) none (head.complete settings).1 item := by
  obtain ⟨between, key, ref, slotTarget, outletName, component, settles, first⟩ := settle_spec head
  obtain ⟨pending, extensions, codes, second⟩ :=
    platformExtensions_spec settings.delimiters head.settle.1
  rw [complete_eq, platform]
  simp only
  generalize (applyExtensions settings.delimiters [Web.classExtension, Web.styleExtension]
    head.settle.1).2 = others
  generalize (applyExtensions settings.delimiters [Web.classExtension, Web.styleExtension]
    head.settle.1).1 = extended at codes second ⊢
  have fewer : extended.pending.Sublist head.pending := by
    rw [codes]
    rw [settles] at second
    exact second.left.trans first.left
  obtain ⟨⟨grown, -⟩, entries⟩ := addAttributes_spec settings extended.pending { extended with pending := [] }
  generalize addAttributes settings extended.pending { extended with pending := [] } = result at grown entries ⊢
  obtain ⟨final, reports⟩ := result
  -- Behind its own rule each field stays as it is.
  have settledStays (settled : Settled head.settle.1 item) : Settled final item := by
    refine (settled.congr ?_ ?_ ?_ ?_ ?_ ?_ : Settled extended item).congr (congrArg Head.tag grown :)
      (congrArg Head.key grown :) (congrArg Head.ref grown :) (congrArg Head.slotTarget grown :)
      (congrArg Head.outletName grown :) (congrArg Head.component grown :)
    all_goals rw [codes]
  have structuralStays (structural : Structural none head item) : Structural none final item := by
    refine (structural.congr ?_ ?_ ?_ ?_ ?_ : Structural none extended item).congr
      (congrArg Head.loop grown :) (congrArg Head.condition grown :) (congrArg Head.isElse grown :)
      (congrArg Head.branchCondition grown :) (congrArg Head.isOnce grown :)
    all_goals rw [codes, settles]
  cases waits with
  | blank blank => exact absurd blank visible
  | reported reported => exact .reported reported.left
  | structural structural => exact .structural (structuralStays structural)
  | pending held =>
    rcases first.all item held with held | reported | settled
    · have left : item ∈ extended.pending ∨ Coded extended item := by
        rw [settles] at second
        rw [codes] at second ⊢
        exact second.all item held
      rcases left with held | coded
      · rcases entries item held (last.fewer fewer) with listed | reported | ⟨spreads, held⟩
        · exact .listed listed
        · exact .reported reported.right.right
        · exact .spread spreads held
      · exact .coded (coded.congr (congrArg Head.extensions grown :))
    · exact .reported reported.left.left.right
    · exact .settled (settledStays settled)

end Head

end Templating.Template
