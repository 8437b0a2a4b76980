import Templating.Proofs.Grammar.Keywords
import Templating.Template.Check
/-!
# Expressions that can be read are not reported

Every reader keeps order: where what it leaves is in order, so is what it was given.  The
lemmas follow the grammar, and the run over a whole expression is by induction on the depth
of nesting.  Functions and listeners are left out: a function holds the keyword `return`, and
the source of a listener is any code.
-/
set_option autoImplicit false

namespace Templating.Expression

open Templating.Text Templating.Data Grammar

/-! ## Expressions without functions -/

mutual

/-- Nothing in it is kept for later: it holds no function and no listeners. -/
def Expr.isImmediate : Expr → Bool
  | .literal _ | .this | .name _ => true
  | .member target _ => target.isImmediate
  | .index target key => target.isImmediate && key.isImmediate
  | .call callee arguments => callee.isImmediate && areImmediate arguments
  | .unary _ operand => operand.isImmediate
  | .binary _ left right => left.isImmediate && right.isImmediate
  | .conditional test whenTrue whenFalse =>
    test.isImmediate && whenTrue.isImmediate && whenFalse.isImmediate
  | .list items => areImmediate items
  | .record entries => entriesImmediate entries
  | .listeners _ | .function _ _ => false

def Key.isImmediate : Key → Bool
  | .fixed _ => true
  | .computed expression => expression.isImmediate

def areImmediate : List Expr → Bool
  | [] => true
  | item :: rest => item.isImmediate && areImmediate rest

def entriesImmediate : List (Key × Expr) → Bool
  | [] => true
  | (key, value) :: rest => key.isImmediate && value.isImmediate && entriesImmediate rest

end

def isImmediateEntry (entry : Key × Expr) : Bool := entry.1.isImmediate && entry.2.isImmediate

theorem areImmediate_eq_all (items : List Expr) : areImmediate items = items.all Expr.isImmediate := by
  induction items with
  | nil => rfl
  | cons item rest ih => rw [areImmediate, List.all_cons, ih]

theorem entriesImmediate_eq_all (entries : List (Key × Expr)) :
    entriesImmediate entries = entries.all isImmediateEntry := by
  induction entries with
  | nil => rfl
  | cons entry rest ih => rw [entriesImmediate, List.all_cons, ih, isImmediateEntry]

def Grammar.Access.isImmediate : Access → Bool
  | .member _ => true
  | .index key => key.isImmediate
  | .call arguments => areImmediate arguments

theorem isImmediate_foldl_access (accesses : List Access) (target : Expr) :
    (accesses.foldl Access.apply target).isImmediate =
      (target.isImmediate && accesses.all Access.isImmediate) := by
  induction accesses generalizing target with
  | nil => simp
  | cons access rest ih =>
    rw [List.foldl_cons, ih, List.all_cons, ← Bool.and_assoc]
    cases access <;> simp [Access.apply, Expr.isImmediate, Access.isImmediate]

theorem isImmediate_foldl_binary (others : List (BinaryOperator × Expr)) (first : Expr) :
    (others.foldl (fun left next => Expr.binary next.1 left next.2) first).isImmediate =
      (first.isImmediate && others.all fun next => next.2.isImmediate) := by
  induction others generalizing first with
  | nil => simp
  | cons next rest ih => rw [List.foldl_cons, ih, List.all_cons, Expr.isImmediate, Bool.and_assoc]

theorem isImmediate_foldr_unary (operators : List UnaryOperator) (inner : Expr) :
    (operators.foldr Expr.unary inner).isImmediate = inner.isImmediate := by
  induction operators with
  | nil => rfl
  | cons operator rest ih => rw [List.foldr_cons, Expr.isImmediate, ih]

namespace Grammar

/-! ## Readers that keep order -/

variable {α β : Type}

/-- Where `behind` holds of what the reader leaves, `front` holds of what it was given. -/
def Keeps (behind front : List Char → List Char → Prop) (accepts : α → Bool) (reader : Reader α) :
    Prop :=
  ∀ expected source result rest, reader source = some (result, rest) → accepts result = true →
    behind expected rest → front expected source

abbrev KeepsOrder (accepts : α → Bool) (reader : Reader α) : Prop :=
  Keeps InOrderApart InOrder accepts reader

/-- As `KeepsOrder`, for a reader whose first token continues no name. -/
abbrev KeepsApart (accepts : α → Bool) (reader : Reader α) : Prop :=
  Keeps InOrderApart InOrderApart accepts reader

namespace Keeps

variable {behind front : List Char → List Char → Prop} {accepts : α → Bool} {reader other : Reader α}

theorem orElse (keeps : Keeps behind front accepts reader) (others : Keeps behind front accepts other) :
    Keeps behind front accepts fun source => (reader source).orElse fun _ => other source := by
  intro expected source result rest found
  simp only [Option.orElse_eq_or, Option.or_eq_some_iff] at found
  rcases found with found | ⟨-, found⟩
  · exact keeps expected source result rest found
  · exact others expected source result rest found

theorem map {allows : β → Bool} (keeps : Keeps behind front accepts reader) (convert : α → β)
    (same : ∀ result, allows (convert result) = true → accepts result = true) :
    Keeps behind front allows fun source =>
      (reader source).map fun entry => (convert entry.1, entry.2) := by
  intro expected source result rest found allowed
  obtain ⟨⟨value, left⟩, read, equal⟩ := Option.map_eq_some_iff.mp found
  cases equal
  exact keeps expected source value left read (same value allowed)

theorem weaken {stronger weaker : List Char → List Char → Prop} (keeps : Keeps behind front accepts reader)
    (fewer : ∀ expected rest, stronger expected rest → behind expected rest)
    (more : ∀ expected source, front expected source → weaker expected source) :
    Keeps stronger weaker accepts reader :=
  fun expected source result rest found accepted ended =>
    more expected source (keeps expected source result rest found accepted (fewer expected rest ended))

theorem ofApart (keeps : KeepsApart accepts reader) : KeepsOrder accepts reader :=
  keeps.weaken (fun _ _ => id) fun _ _ => InOrderApart.toInOrder

end Keeps

theorem mark_keeps {mark : String} (bare : isBareMark mark = true) (value : α) :
    Keeps InOrder InOrderApart (fun _ => true) fun source =>
      (mark? mark source).map fun rest => (value, rest) := by
  intro expected source result rest found _ behind
  obtain ⟨left, marked, same⟩ := Option.map_eq_some_iff.mp found
  cases same
  exact behind.beforeMark bare marked

theorem many_keeps {item : Reader α} {accepts : α → Bool} {holds : List Char → Prop}
    (each : ∀ source result rest, item source = some (result, rest) → accepts result = true →
      holds rest → holds source)
    (source : List Char) (accepted : (many item source).1.all accepts = true)
    (behind : holds (many item source).2) : holds source := by
  unfold many at accepted behind
  generalize source.length = fuel at accepted behind
  induction fuel generalizing source with
  | zero => exact behind
  | succ fuel ih =>
    rw [manyFrom] at accepted behind
    cases read : item source with
    | none =>
      rw [read] at behind
      exact behind
    | some entry =>
      obtain ⟨first, rest⟩ := entry
      simp only [read, List.all_cons, Bool.and_eq_true] at accepted behind
      exact each source first rest read accepted.1 (ih rest accepted.2 behind)

section Sequences

variable {item : Reader α} {accepts : α → Bool} (keeps : KeepsOrder accepts item)

include keeps

theorem commaThen_keeps : KeepsApart accepts (commaThen item) := by
  intro expected source result rest found accepted behind
  obtain ⟨inside, comma, read⟩ := Option.bind_eq_some_iff.mp found
  exact (keeps expected inside result rest read accepted behind).beforeMark (by decide) comma

theorem separated_keeps {expected source rest : List Char} {items : List α}
    (found : separated item source = (items, rest)) (accepted : items.all accepts = true)
    (behind : InOrderApart expected rest) : InOrder expected source := by
  unfold separated at found
  cases read : item source with
  | none =>
    rw [read] at found
    cases found
    exact behind.toInOrder
  | some entry =>
    obtain ⟨first, others⟩ := entry
    rw [read] at found
    cases found
    rw [List.all_cons, Bool.and_eq_true] at accepted
    refine keeps expected source first others read accepted.1 ?_
    exact many_keeps (fun source result rest => commaThen_keeps keeps expected source result rest)
      others accepted.2 behind

variable {opening closing : String} {opener closer : Char}
  (pair : IsBracketPair opening closing opener closer)

include pair

theorem enclosed_keeps : KeepsApart (List.all · accepts) (enclosed opening closing item) := by
  intro expected source items rest found accepted behind
  unfold enclosed at found
  split at found
  · cases found
  · next inside opened =>
    generalize run : separated item inside = taken at found
    obtain ⟨taken, left⟩ := taken
    obtain ⟨rest, closed, same⟩ := Option.map_eq_some_iff.mp found
    cases same
    have ended := behind.toInOrder.beforeClosing pair closed
    exact (separated_keeps keeps run accepted ended).beforeOpening pair opened

theorem enclosedWithComma_keeps :
    KeepsApart (List.all · accepts) (enclosedWithComma opening closing item) := by
  intro expected source items rest found accepted behind
  unfold enclosedWithComma at found
  split at found
  · cases found
  · next inside opened =>
    generalize run : separated item inside = taken at found
    obtain ⟨taken, left⟩ := taken
    obtain ⟨rest, closed, same⟩ := Option.map_eq_some_iff.mp found
    cases same
    have ended := behind.toInOrder.beforeClosing pair closed
    have last : InOrderApart (closer :: expected) left := by
      cases comma : mark? "," left with
      | none => rwa [comma] at ended
      | some after =>
        rw [comma] at ended
        exact ended.toInOrder.beforeMark (by decide) comma
    exact (separated_keeps keeps run accepted last).beforeOpening pair opened

end Sequences

/-! ## Operands -/

theorem keywords_reserved : ∀ word ∈ keywords, word ∈ reserved := by decide +kernel

theorem text_keeps : KeepsOrder (fun _ => true) textLiteral :=
  fun _ _ _ _ found _ behind => behind.toInOrder.text found

theorem number_keeps : KeepsOrder (fun _ => true) numberText :=
  fun _ _ _ _ found _ behind => behind.toInOrder.number found behind.apart

theorem variableName_keeps : KeepsOrder (fun _ => true) variableName := by
  intro expected source name rest found _ behind
  unfold variableName at found
  split at found
  · next name rest named =>
    split at found
    · cases found
    · next free =>
      cases found
      refine behind.toInOrder.beforeName named fun keyword => free ?_
      exact List.contains_iff_mem.mpr (keywords_reserved name keyword)
  · cases found

theorem wordLiteral_keeps : KeepsOrder Expr.isImmediate wordLiteral := by
  intro expected source result rest found _ behind
  unfold wordLiteral at found
  split at found
  · cases found
  · next name left named =>
    have literal : name ∈ ["true", "false", "null", "undefined", "this"] ∧ left = rest := by
      simp only [beq_iff_eq] at found
      repeat' split at found
      all_goals first
        | cases found; exact ⟨by simp [*], rfl⟩
        | cases found
    obtain ⟨listed, rfl⟩ := literal
    have free : ∀ word ∈ ["true", "false", "null", "undefined", "this"], word ∉ keywords := by
      decide +kernel
    exact behind.toInOrder.beforeName named (free name listed)

section Nested

variable {nested : Reader Expr} (keeps : KeepsOrder Expr.isImmediate nested)

include keeps

theorem bracketed_keeps {opening closing : String} {opener closer : Char}
    (pair : IsBracketPair opening closing opener closer) {expected source rest : List Char}
    {inner : Expr} {inside afterInner : List Char} (opened : mark? opening source = some inside)
    (read : nested inside = some (inner, afterInner)) (closed : mark? closing afterInner = some rest)
    (immediate : inner.isImmediate = true) (behind : InOrderApart expected rest) :
    InOrderApart expected source := by
  have ended := behind.toInOrder.beforeClosing pair closed
  exact (keeps _ inside inner afterInner read immediate ended).beforeOpening pair opened

theorem parenthesized_keeps : KeepsApart Expr.isImmediate (parenthesized nested) := by
  intro expected source result rest found immediate behind
  simp only [parenthesized, Option.bind_eq_bind, Option.bind_eq_some_iff] at found
  obtain ⟨inside, opened, ⟨inner, afterInner⟩, read, left, closed, same⟩ := found
  cases same
  exact bracketed_keeps keeps roundPair opened read closed immediate behind

/-- What follows a key. -/
structure BeforeColon (expected rest : List Char) : Prop extends InOrderApart expected rest where
  colon : (mark? ":" rest).isSome = true

theorem computedKey_keeps : KeepsApart Key.isImmediate (fun source =>
    match (mark? "[" source).bind nested with
    | some (expression, rest) => (mark? "]" rest).map fun behind => (Key.computed expression, behind)
    | none => none) := by
  intro expected source key rest found immediate behind
  simp only at found
  split at found
  · next inner afterInner read =>
    obtain ⟨inside, opened, read⟩ := Option.bind_eq_some_iff.mp read
    obtain ⟨left, closed, same⟩ := Option.map_eq_some_iff.mp found
    cases same
    exact bracketed_keeps keeps squarePair opened read closed immediate behind
  · cases found

/-- Only a name needs the colon: it may be a keyword. -/
theorem keyWith_keeps : Keeps BeforeColon InOrder Key.isImmediate (keyWith nested) := by
  have name : Keeps BeforeColon InOrder (fun _ => true) anyName := fun _ _ _ _ found _ behind => by
    obtain ⟨value, colon⟩ := Option.isSome_iff_exists.mp behind.colon
    exact behind.toInOrder.beforeKey found colon
  have other {γ : Type} {accepts : γ → Bool} {reader : Reader γ} (keeps : KeepsOrder accepts reader) :
      Keeps BeforeColon InOrder accepts reader :=
    keeps.weaken (fun _ _ => BeforeColon.toInOrderApart) fun _ _ => id
  refine Keeps.orElse (Keeps.orElse (Keeps.orElse ?_ ?_) ?_) ?_
  · exact other (.ofApart (computedKey_keeps keeps))
  · exact (other text_keeps).map Key.fixed fun _ _ => rfl
  · exact (other number_keeps).map (fun digits => Key.fixed (String.ofList digits)) fun _ _ => rfl
  · exact name.map Key.fixed fun _ _ => rfl

theorem plainEntry_keeps : KeepsOrder isImmediateEntry (plainEntry nested) := by
  intro expected source entry rest found immediate behind
  unfold plainEntry at found
  split at found
  · cases found
  · next key left keyed =>
    obtain ⟨⟨value, after⟩, valued, same⟩ := Option.map_eq_some_iff.mp found
    cases same
    obtain ⟨inside, colon, read⟩ := Option.bind_eq_some_iff.mp valued
    obtain ⟨keyImmediate, valueImmediate⟩ := Bool.and_eq_true_iff.mp immediate
    have valueKept := keeps expected inside value rest read valueImmediate behind
    exact keyWith_keeps keeps expected source key left keyed keyImmediate
      ⟨valueKept.beforeMark (by decide) colon, by rw [colon]; rfl⟩

theorem entryWith_keeps : KeepsOrder isImmediateEntry (entryWith nested) := by
  refine Keeps.orElse ?_ (plainEntry_keeps keeps)
  intro expected source entry rest found immediate behind
  unfold listenersEntry at found
  split at found
  · cases found
  · split at found
    · obtain ⟨⟨entries, after⟩, -, same⟩ := Option.map_eq_some_iff.mp found
      cases same
      cases immediate
    · cases found

omit keeps in
theorem function_keeps : KeepsOrder Expr.isImmediate (function nested) := by
  intro expected source result rest found immediate behind
  simp only [function, Option.bind_eq_bind, Option.bind_eq_some_iff] at found
  obtain ⟨afterWord, -, ⟨parameters, afterParameters⟩, -, inside, -, afterReturn, -,
    ⟨body, afterBody⟩, -, left, -, same⟩ := found
  cases same
  cases immediate

theorem primary_keeps : KeepsOrder Expr.isImmediate (primary nested) := by
  have records := enclosedWithComma_keeps (entryWith_keeps keeps) curlyPair
  have lists := enclosed_keeps keeps squarePair
  refine Keeps.orElse function_keeps ?_
  refine Keeps.orElse (.ofApart (records.map Expr.record fun entries immediate => ?_)) ?_
  · rwa [Expr.isImmediate, entriesImmediate_eq_all] at immediate
  refine Keeps.orElse (.ofApart (lists.map Expr.list fun items immediate => ?_)) ?_
  · rwa [Expr.isImmediate, areImmediate_eq_all] at immediate
  refine Keeps.orElse (text_keeps.map (fun content => Expr.literal (.string content)) fun _ _ => rfl) ?_
  refine Keeps.orElse (number_keeps.map (fun digits =>
    Expr.literal (.number ((Number.read? digits).getD Number.notANumber))) fun _ _ => rfl) ?_
  refine Keeps.orElse wordLiteral_keeps ?_
  refine Keeps.orElse (variableName_keeps.map Expr.name fun _ _ => rfl) ?_
  exact .ofApart (parenthesized_keeps keeps)

theorem access_keeps : KeepsApart Access.isImmediate (access nested) := by
  have arguments := enclosed_keeps keeps roundPair
  refine Keeps.orElse (Keeps.orElse ?_ ?_) (arguments.map Access.call fun items immediate => ?_)
  · intro expected source result rest found _ behind
    obtain ⟨⟨name, after⟩, read, same⟩ := Option.map_eq_some_iff.mp found
    cases same
    obtain ⟨inside, point, named⟩ := Option.bind_eq_some_iff.mp read
    exact behind.toInOrder.beforeProperty named point
  · intro expected source result rest found immediate behind
    simp only [Option.bind_eq_bind, Option.bind_eq_some_iff] at found
    obtain ⟨inside, opened, ⟨key, afterKey⟩, read, left, closed, same⟩ := found
    cases same
    exact bracketed_keeps keeps squarePair opened read closed immediate behind
  · rwa [Access.isImmediate, areImmediate_eq_all] at immediate

theorem operand_keeps : KeepsOrder Expr.isImmediate (operand nested) := by
  intro expected source result rest found immediate behind
  unfold operand at found
  split at found
  · cases found
  · next first after read =>
    cases found
    rw [isImmediate_foldl_access, Bool.and_eq_true] at immediate
    refine primary_keeps keeps expected source first after read immediate.1 ?_
    exact many_keeps (access_keeps keeps expected) after immediate.2 behind

/-! ## Operators -/

omit keeps in
theorem word_keeps {word : String} (free : word ∉ keywords) {operator : UnaryOperator} :
    Keeps InOrder InOrder (fun _ => true) fun source =>
      (word? word source).map fun rest => (operator, rest) := by
  intro expected source result rest found _ behind
  obtain ⟨left, read, same⟩ := Option.map_eq_some_iff.mp found
  cases same
  unfold word? at read
  split at read
  · next name after named =>
    split at read
    · next equal =>
      cases read
      exact behind.beforeName named (eq_of_beq equal ▸ free)
    · cases read
  · cases read

omit keeps in
theorem unaryOperator_keeps : Keeps InOrder InOrder (fun _ => true) unaryOperator := by
  have mark {mark : String} (bare : isBareMark mark = true) (operator : UnaryOperator) :
      Keeps InOrder InOrder (fun _ => true) fun source =>
        (mark? mark source).map fun rest => (operator, rest) :=
    (mark_keeps bare operator).weaken (fun _ _ => id) fun _ _ => InOrderApart.toInOrder
  rw [funext unaryOperator_eq]
  refine Keeps.orElse (mark (by decide) .not) ?_
  refine Keeps.orElse (mark (by decide) .negate) ?_
  refine Keeps.orElse (mark (by decide) .plus) ?_
  exact Keeps.orElse (word_keeps (by decide)) (word_keeps (by decide))

theorem unary_keeps : KeepsOrder Expr.isImmediate (unary nested) := by
  intro expected source result rest found immediate behind
  obtain ⟨⟨inner, after⟩, read, same⟩ := Option.map_eq_some_iff.mp found
  cases same
  rw [isImmediate_foldr_unary] at immediate
  have operand := operand_keeps keeps expected _ inner rest read immediate behind
  exact many_keeps (unaryOperator_keeps expected) source (List.all_eq_true.mpr fun _ _ => rfl) operand

omit keeps in
theorem binaryOperator_keeps {level : List (String × BinaryOperator)}
    (bare : ∀ entry ∈ level, isBareMark entry.1 = true) :
    Keeps InOrder InOrderApart (fun _ => true) (binaryOperator level) := by
  intro expected source operator rest found accepted behind
  obtain ⟨entry, held, read⟩ := List.exists_of_findSome?_eq_some found
  exact mark_keeps (bare entry held) entry.2 expected source operator rest read accepted behind

theorem continuation_keeps {level : List (String × BinaryOperator)}
    (bare : ∀ entry ∈ level, isBareMark entry.1 = true) :
    KeepsApart (fun next => next.2.isImmediate) (continuation level nested) := by
  intro expected source next rest found immediate behind
  unfold continuation at found
  split at found
  · cases found
  · next operator after operated =>
    obtain ⟨⟨right, left⟩, read, same⟩ := Option.map_eq_some_iff.mp found
    cases same
    have operand := keeps expected after right rest read immediate behind
    exact binaryOperator_keeps bare expected source operator after operated rfl operand

theorem chain_keeps {level : List (String × BinaryOperator)}
    (bare : ∀ entry ∈ level, isBareMark entry.1 = true) :
    KeepsOrder Expr.isImmediate (chain level nested) := by
  intro expected source result rest found immediate behind
  unfold chain at found
  split at found
  · cases found
  · next first after read =>
    cases found
    rw [isImmediate_foldl_binary, Bool.and_eq_true] at immediate
    refine keeps expected source first after read immediate.1 ?_
    exact many_keeps (continuation_keeps keeps bare expected) after immediate.2 behind

theorem binary_keeps {levels : List (List (String × BinaryOperator))}
    (bare : ∀ level ∈ levels, ∀ entry ∈ level, isBareMark entry.1 = true) :
    KeepsOrder Expr.isImmediate (binary nested levels) := by
  induction levels with
  | nil => exact unary_keeps keeps
  | cons level tighter ih =>
    obtain ⟨here, others⟩ := List.forall_mem_cons.mp bare
    exact chain_keeps (ih others) here

/-! ## Whole expressions -/

theorem outcomes_keeps : KeepsApart (fun branches => branches.1.isImmediate && branches.2.isImmediate)
    (outcomes nested) := by
  intro expected source branches rest found immediate behind
  simp only [outcomes, Option.bind_eq_bind, Option.bind_eq_some_iff] at found
  obtain ⟨afterTest, asked, ⟨whenTrue, afterTrue⟩, trueRead, afterColon, colon, ⟨whenFalse, left⟩,
    falseRead, same⟩ := found
  cases same
  obtain ⟨trueImmediate, falseImmediate⟩ := Bool.and_eq_true_iff.mp immediate
  -- From the end of the source to its start.
  have falseKept := keeps expected afterColon whenFalse left falseRead falseImmediate behind
  have separated := falseKept.beforeMark (by decide) colon
  have trueKept := keeps expected afterTest whenTrue afterTrue trueRead trueImmediate separated
  exact trueKept.beforeMark (by decide) asked

theorem expressionWith_keeps : KeepsOrder Expr.isImmediate (expressionWith nested) := by
  intro expected source result rest found immediate behind
  unfold expressionWith at found
  split at found
  · cases found
  · next test after read =>
    have tests : KeepsOrder Expr.isImmediate (binary nested operatorLevels) :=
      binary_keeps keeps (by decide)
    split at found
    · next whenTrue whenFalse left branched =>
      cases found
      rw [Expr.isImmediate, Bool.and_assoc, Bool.and_eq_true] at immediate
      refine tests expected source test after read immediate.1 ?_
      exact outcomes_keeps keeps expected after _ rest branched immediate.2 behind
    · cases found
      exact tests expected source result rest read immediate behind

end Nested

theorem expressionIn_keeps (depth : Nat) : KeepsOrder Expr.isImmediate (expressionIn depth) := by
  induction depth with
  | zero =>
    intro expected source result rest found
    cases found
  | succ depth ih => exact expressionWith_keeps ih

theorem expression_keeps : KeepsOrder Expr.isImmediate expression :=
  fun expected source => expressionIn_keeps (source.length + 1) expected source

end Grammar

theorem inOrder_blanks {rest : List Char} (blank : rest.all isSeparatingBlank = true) :
    InOrderApart [] rest := by
  refine .ofSkipBlanks ?_
  rw [List.isEmpty_iff.mp ((skipBlanks_isEmpty rest).trans blank)]
  refine ⟨⟨fun _ => (closes_nil_iff []).mpr rfl, fun before word held => ?_⟩, nofun⟩
  cases held

/-- What can be read, holds no code for later and breaks no text, is never reported. -/
theorem silent_of_parse {source : String} {result : Expr}
    (parsed : parseExpression? source = some result) (immediate : result.isImmediate = true)
    (unbroken : breaksText .code source.toList = false) :
    misusedKeyword? source = none ∧ imbalance? source = none ∧
      ∀ raw, Template.expressionProblems source raw = [] := by
  obtain ⟨rest, read, blank⟩ := (whole_eq_some_iff expression source result).mp parsed
  have order := expression_keeps [] source.toList result rest read immediate (inOrder_blanks blank)
  have keyword : misusedKeyword? source = none := by
    rw [misusedKeyword?, firstWord?, Option.map_eq_none_iff, List.find?_eq_none]
    intro word held
    simpa using order.keywords none word held
  have balance : imbalance? source = none := order.closes unbroken
  refine ⟨keyword, balance, fun raw => ?_⟩
  simp [Template.expressionProblems, Template.lexicalProblem?, keyword, balance, parsed]

/-- Keywords as properties, as keys and in texts, brackets and escaped quotes in texts, and
blanks and lines between tokens. -/
def crowdedSource : String :=
  "\x7b if\n: a . for[ 'do \\'it(' + 1e5 ], \"return]\\\"\": [typeof x.with, (b ?-c:\x7b\x7d)], " ++
    "[let0]: 2.5.do() \x7d "

theorem crowdedSource_silent :
    (parseExpression? crowdedSource).any Expr.isImmediate = true ∧
      breaksText .code crowdedSource.toList = false ∧ misusedKeyword? crowdedSource = none ∧
      imbalance? crowdedSource = none ∧ Template.expressionProblems crowdedSource crowdedSource = [] := by
  have read : (parseExpression? crowdedSource).any Expr.isImmediate = true := by decide +kernel
  have unbroken : breaksText .code crowdedSource.toList = false := by decide +kernel
  obtain ⟨result, parsed, immediate⟩ := (Option.any_eq_true _ _).mp read
  obtain ⟨keyword, balance, quiet⟩ := silent_of_parse parsed immediate unbroken
  exact ⟨read, unbroken, keyword, balance, quiet crowdedSource⟩

end Templating.Expression
