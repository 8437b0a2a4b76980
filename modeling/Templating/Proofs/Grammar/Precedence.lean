import Templating.Proofs.Grammar.Compound
/-!
# Reading by precedence

An operand is read whatever follows it, as long as nothing that follows belongs to it: no
name goes on, and no operator of its own level or a tighter one stands there.  Chains of
accesses and of binary operators grow at their end, one item at a time.
-/
set_option autoImplicit false

namespace Templating.Expression.Grammar

open Templating.Text

abbrev Level := List (String × BinaryOperator)

variable {code : List Char} {result : Expr}

/-! ## What stands behind -/

/-- Neither a name nor an access goes on here, nor an operator on these levels. -/
structure Ends (levels : List Level) (rest : List Char) : Prop where
  name : EndsName rest
  access : access expression rest = none
  operators : ∀ level ∈ levels, binaryOperator level rest = none

def stopsBefore (levels : List Level) (c : Char) : Bool :=
  !isNameChar c && !isSeparatingBlank c && !(['.', '[', '('].contains c) &&
    levels.all fun level => (operatorStarts level).all fun start => start.any (· != c)

section Ends

variable {levels : List Level} {level : Level}

theorem Ends.fewer {rest : List Char} (ends : Ends (level :: levels) rest) : Ends levels rest :=
  ⟨ends.name, ends.access, fun other held => ends.operators other (List.mem_cons_of_mem level held)⟩

theorem ends_cons {c : Char} (stops : stopsBefore levels c = true) (rest : List Char) :
    Ends levels (c :: rest) := by
  simp only [stopsBefore, List.contains_cons, List.contains_nil, Bool.and_eq_true,
    Bool.not_eq_true', Bool.or_eq_false_iff, beq_eq_false_iff_ne, Bool.or_false,
    List.all_eq_true] at stops
  obtain ⟨⟨⟨noName, visible⟩, noPoint, noSquare, noRound⟩, noOperator⟩ := stops
  have start := skipBlanks_cons visible rest
  refine ⟨endsName_cons noName rest, ?_, ?_⟩
  · exact access_none_of_start start noPoint.symm noSquare.symm noRound.symm expression
  · intro level held
    exact binaryOperator_none_of_starts start (noOperator level held)

theorem ends_nil : Ends operatorLevels [] := by
  refine ⟨?_, by decide, by decide⟩
  intro c same
  cases same

end Ends

/-! ## Chains -/

section Chains

variable {β : Type} {reader : Reader Expr} {item : Reader β} {join : Expr → β → Expr}
  {allowed : List Char → Prop}

/-- Behind `code` the reader takes as many items as it finds, and joins them to `result`. -/
def Continues (reader : Reader Expr) (item : Reader β) (join : Expr → β → Expr)
    (allowed : List Char → Prop) (code : List Char) (result : Expr) : Prop :=
  ∀ rest, allowed rest →
    reader (code ++ rest) = some ((many item rest).1.foldl join result, (many item rest).2)

theorem Continues.append (continues : Continues reader item join allowed code result)
    (shortens : Shortens item) {more : List Char} (next : β)
    (allows : ∀ rest, allowed (more ++ rest))
    (read : ∀ rest, allowed rest → item (more ++ rest) = some (next, rest)) :
    Continues reader item join allowed (code ++ more) (join result next) := by
  intro rest ends
  have before := continues (more ++ rest) (allows rest)
  rw [many_eq shortens, read rest ends] at before
  rw [List.append_assoc, before]
  rfl

theorem Continues.stop (continues : Continues reader item join allowed code result)
    {rest : List Char} (ends : allowed rest) (none : item rest = none) :
    reader (code ++ rest) = some (result, rest) := by
  rw [continues rest ends, many_none item none]
  rfl

end Chains

/-! ## Accesses -/

/-- The expression may be called, and its members may be taken. -/
structure Target (code : List Char) (result : Expr) : Prop where
  noUnary : ∀ rest, EndsName rest → unaryOperator (code ++ rest) = none
  read : Continues (operand expression) (access expression) Access.apply EndsName code result

theorem ReadsPrimary.target (reads : ReadsPrimary code result) : Target code result := by
  refine ⟨reads.noUnary, ?_⟩
  intro rest ends
  simp only [Grammar.operand, reads.read rest ends]

section Target

variable (target : Target code result)

include target

theorem Target.append {c : Char} {more : List Char} (next : Access) (mark : isNameChar c = false)
    (read : ∀ rest, EndsName rest → access expression (c :: more ++ rest) = some (next, rest)) :
    Target (code ++ c :: more) (next.apply result) := by
  have allows (rest : List Char) : EndsName (c :: more ++ rest) := endsName_cons mark (more ++ rest)
  refine ⟨fun rest _ => ?_, target.read.append access_shortens next allows read⟩
  rw [List.append_assoc]
  exact target.noUnary _ (allows rest)

theorem Target.member {property : List Char} (identifier : isIdentifier property = true) :
    Target (code ++ '.' :: property) (.member result (String.ofList property)) := by
  refine target.append (.member (String.ofList property)) rfl fun rest ends => ?_
  have found := anyName_ends property identifier ends
  have point := mark_self "." '.' rfl rfl (property ++ rest)
  simp [access, point, found]

theorem Target.index {key : List Char} {keyResult : Expr}
    (inner : Reads expression endsListener key keyResult) :
    Target (code ++ '[' :: (key ++ [']'])) (.index result keyResult) := by
  refine target.append (.index keyResult) rfl fun rest _ => ?_
  obtain ⟨blanks, blank, read⟩ := inner ']' rest rfl
  have source : '[' :: (key ++ [']']) ++ rest = '[' :: (key ++ ']' :: rest) := by simp
  have noPoint := mark_none (skipBlanks_cons (c := '[') rfl (key ++ ']' :: rest)) "." rfl (by decide)
  have opened := mark_self "[" '[' rfl rfl (key ++ ']' :: rest)
  have closed : mark? "]" (blanks ++ ']' :: rest) = some rest := by
    rw [mark_skip blank]
    exact mark_self _ ']' rfl rfl _
  rw [source]
  simp [access, noPoint, opened, read, closed]

theorem Target.call {codes : List (List Char)} {results : List Expr}
    (items : List.Forall₂ (Reads expression endsListener) codes results) :
    Target (code ++ '(' :: (commaList codes ++ [')'])) (.call result results) := by
  refine target.append (.call results) rfl fun rest _ => ?_
  have source : '(' :: (commaList codes ++ [')']) ++ rest = '(' :: (commaList codes ++ ')' :: rest) := by
    simp
  have start := skipBlanks_cons (c := '(') rfl (commaList codes ++ ')' :: rest)
  have called := enclosed_reads roundPair expression_shortens (expression_none (by decide)) items rest
  rw [source]
  simp [access, mark_none start "." rfl (by decide), mark_none start "[" rfl (by decide), called]

end Target

/-! ## Operators -/

/-- On these levels, the code may stand to the left of an operator. -/
def ReadsLeft : List Level → List Char → Expr → Prop
  | [], code, result => ∀ rest, Ends [] rest → unary expression (code ++ rest) = some (result, rest)
  | level :: tighter, code, result =>
    Continues (chain level (binary expression tighter)) (continuation level (binary expression tighter))
      (fun left next => .binary next.1 left next.2) (Ends tighter) code result

section Levels

variable {level : Level} {tighter levels : List Level}

theorem ReadsLeft.read (reads : ReadsLeft levels code result) {rest : List Char}
    (ends : Ends levels rest) : binary expression levels (code ++ rest) = some (result, rest) := by
  cases levels with
  | nil => exact reads rest ends
  | cons level tighter =>
    have none := ends.operators level List.mem_cons_self
    exact Continues.stop reads ends.fewer (by simp [continuation, none])

theorem ReadsLeft.looser (reads : ReadsLeft tighter code result) :
    ReadsLeft (level :: tighter) code result := by
  intro rest ends
  simp only [chain, reads.read ends]

theorem Target.readsLeft (target : Target code result) : ReadsLeft [] code result := by
  intro rest ends
  have operand := target.read.stop ends.name ends.access
  exact unary_of_operand (target.noUnary rest ends.name) operand

theorem ReadsLeft.binary {left right mark : List Char} {leftResult rightResult : Expr}
    {operator : BinaryOperator}
    (inner : ∀ other ∈ level :: tighter, ∀ entry ∈ other, isInnerMark entry.1 = true)
    (stops : ∀ rest, Ends tighter (mark ++ rest))
    (read : ∀ rest, binaryOperator level (mark ++ (right ++ rest)) = some (operator, right ++ rest))
    (leftReads : ReadsLeft (level :: tighter) left leftResult)
    (rightReads : ReadsLeft tighter right rightResult) :
    ReadsLeft (level :: tighter) (left ++ (mark ++ right)) (.binary operator leftResult rightResult) := by
  obtain ⟨here, others⟩ := List.forall_mem_cons.mp inner
  have shortens := continuation_shortens level here (binary_shortens tighter others)
  refine Continues.append leftReads shortens (operator, rightResult) ?_ ?_
  · intro rest
    rw [List.append_assoc]
    exact stops (right ++ rest)
  · intro rest ends
    rw [List.append_assoc]
    simp [continuation, read, rightReads.read ends]

end Levels

/-! ## Unary operators -/

theorem unaryOperator_shortens : Shortens unaryOperator := fun source _ _ found =>
  (unaryOperator_match (samePairing_self [] source)).length_lt found

theorem unary_of_operator {source rest : List Char} {operator : UnaryOperator}
    (found : unaryOperator source = some (operator, rest)) :
    unary expression source =
      (unary expression rest).map fun inner => (.unary operator inner.1, inner.2) := by
  unfold unary
  rw [many_eq unaryOperator_shortens, found]
  simp only
  cases operand expression (many unaryOperator rest).2 <;> rfl

theorem primary_blank (nested : Reader Expr) (source : List Char) :
    primary nested (' ' :: source) = primary nested source := by
  have same : skipBlanks (' ' :: source) = skipBlanks source := rfl
  simp only [primary, function, word?, wordLiteral, variableName, anyName, enclosed, enclosedWithComma,
    textLiteral, numberLiteral, numberText, parenthesized, mark?, same]

/-- A blank behind an operator does not count. -/
theorem unary_blank (source : List Char) :
    unary expression (' ' :: source) = unary expression source := by
  have operator : unaryOperator (' ' :: source) = unaryOperator source := by
    have same : skipBlanks (' ' :: source) = skipBlanks source := rfl
    simp only [unaryOperator, same]
  cases found : unaryOperator source with
  | none =>
    rw [found] at operator
    simp only [unary, many_none _ found, many_none _ operator, operand, primary_blank]
  | some first =>
    rw [unary_of_operator (operator.trans found), unary_of_operator found]

/-! ## Whole expressions -/

def ReadsWhole (code : List Char) (result : Expr) : Prop :=
  ∀ rest, Ends operatorLevels rest → mark? "?" rest = none →
    expression (code ++ rest) = some (result, rest)

theorem ReadsLeft.whole (reads : ReadsLeft operatorLevels code result) : ReadsWhole code result := by
  intro rest ends noBranch
  rw [expression_eq, expressionWith, reads.read ends]
  simp [outcomes, noBranch]

theorem ReadsWhole.reads (whole : ReadsWhole code result) : Reads expression endsBlock code result := by
  intro d tail ends
  have stops : stopsBefore operatorLevels d = true ∧ '?' ≠ d ∧ isSeparatingBlank d = false := by
    rcases endsBlock_cases ends with rfl | rfl | rfl | rfl | rfl <;> decide
  obtain ⟨stops, noBranch, visible⟩ := stops
  refine ⟨[], rfl, ?_⟩
  exact whole (d :: tail) (ends_cons stops tail) (mark_none (skipBlanks_cons visible tail) "?" rfl noBranch)

theorem ReadsWhole.listed (whole : ReadsWhole code result) :
    Reads expression endsListener code result :=
  whole.reads.weaken fun _ ends => endsBlock_of_endsListener ends

theorem ReadsLeft.conditional {test whenTrue whenFalse : List Char}
    {testResult trueResult falseResult : Expr} (testReads : ReadsLeft operatorLevels test testResult)
    (trueReads : ReadsWhole whenTrue trueResult) (falseReads : ReadsWhole whenFalse falseResult) :
    ReadsWhole (test ++ '?' :: (whenTrue ++ ':' :: whenFalse))
      (.conditional testResult trueResult falseResult) := by
  intro rest ends noBranch
  have source : test ++ '?' :: (whenTrue ++ ':' :: whenFalse) ++ rest =
      test ++ '?' :: (whenTrue ++ ':' :: (whenFalse ++ rest)) := by simp
  have noOperator := operators_none_of_question
    (trueReads.reads.starts_behind rfl (':' :: (whenFalse ++ rest)))
  have start := skipBlanks_cons (c := '?') rfl (whenTrue ++ ':' :: (whenFalse ++ rest))
  have asked : Ends operatorLevels ('?' :: (whenTrue ++ ':' :: (whenFalse ++ rest))) :=
    ⟨endsName_cons rfl _, access_none_of_start start (by decide) (by decide) (by decide) expression, noOperator⟩
  rw [source]
  exact expression_of_outcomes (testReads.read asked) trueReads.reads (falseReads rest ends noBranch)

end Templating.Expression.Grammar
