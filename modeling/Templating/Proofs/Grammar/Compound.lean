import Templating.Proofs.Grammar.Writing
/-!
# Compound source that is read back

Functions, sums, conditionals and whole programs.
-/
set_option autoImplicit false

namespace Templating.Expression.Grammar

open Templating.Text

variable {α : Type} {code : List Char} {result : Expr}

/-! ## Blanks in front -/

section Blanks

variable {left right : List Char} (same : skipBlanks left = skipBlanks right)

include same

theorem match_of_skipBlanks {reader : Reader α} (skips : ∀ source, reader (skipBlanks source) = reader source)
    (shortens : Shortens reader) :
    Match (fun left right => skipBlanks left = skipBlanks right) left right (reader left)
      (reader right) := by
  have equal : reader left = reader right := by rw [← skips left, same, skips right]
  rw [equal]
  cases found : reader right with
  | none => exact .none
  | some entry =>
    exact .some entry.1 entry.2 entry.2 rfl (shortens left entry.1 entry.2 (equal.trans found))
      (shortens right entry.1 entry.2 found)

theorem markMatch_of_skipBlanks {mark : String} (given : mark.toList ≠ []) :
    MarkMatch (fun left right => skipBlanks left = skipBlanks right) left right (mark? mark left)
      (mark? mark right) := by
  have equal : mark? mark left = mark? mark right := by simp only [mark?, same]
  rw [equal]
  cases found : mark? mark right with
  | none => exact .none
  | some rest =>
    exact .some rest rest rfl (mark_length_lt given (equal.trans found)) (mark_length_lt given found)

end Blanks

def blankPairing : Pairing where
  holds _ left right := skipBlanks left = skipBlanks right
  opening single _ _ _ _ same := markMatch_of_skipBlanks same (by simp [single])
  closing single _ _ _ _ same := markMatch_of_skipBlanks same (by simp [single])
  comma same := markMatch_of_skipBlanks same (by decide)
  inner isInner _ _ _ same := markMatch_of_skipBlanks same (isInnerMark_ne_nil isInner)
  name same := match_of_skipBlanks same
    (fun source => by simp only [anyName, skipBlanks_skipBlanks]) fun _ _ _ found =>
      anyName_length_lt found
  text same := match_of_skipBlanks same
    (fun source => by simp only [textLiteral, skipBlanks_skipBlanks]) fun _ _ _ found =>
      textLiteral_length_lt found
  number same := match_of_skipBlanks same
    (fun source => by simp only [numberText, skipBlanks_skipBlanks]) fun _ _ _ found =>
      numberText_length_lt found
  listener same := match_of_skipBlanks same
    (fun source => by simp only [listenerSource, skipBlanks_skipBlanks]) fun _ _ _ found =>
      listenerSource_length_lt found

theorem Reads.blank {stops : Char → Bool} (visible : ∀ c, stops c = true → isSeparatingBlank c = false)
    (reads : Reads expression stops code result) :
    Reads expression stops (' ' :: code) result := by
  intro d tail ends
  obtain ⟨blanks, blank, read⟩ := reads d tail ends
  have related : blankPairing.holds [] (' ' :: (code ++ d :: tail)) (code ++ d :: tail) := rfl
  have found := expression_match related
  rw [read] at found
  rw [List.cons_append]
  generalize expression (' ' :: (code ++ d :: tail)) = longer at found
  cases found with
  | some _ rest _ related =>
    have left : skipBlanks rest = skipBlanks (blanks ++ d :: tail) := related
    rw [skipBlanks_blanks_append blank, skipBlanks_cons (visible d ends)] at left
    refine ⟨rest.takeWhile isSeparatingBlank, ?_, ?_⟩
    · exact List.all_eq_true.mpr fun c held => List.mem_takeWhile_imp held
    · rw [← left, skipBlanks, List.takeWhile_append_dropWhile]

/-! ## Functions -/

section Functions

variable {codes : List (List Char)} {parameters : List Pattern}

theorem pattern_shortens : Shortens pattern := fun _ _ _ found => pattern_length_lt found

theorem pattern_none_of_round (rest : List Char) : pattern (')' :: rest) = none := by
  have start := skipBlanks_cons (c := ')') rfl rest
  simp [pattern, patternIn, patternWith, variableName_none start rfl,
    enclosedWithComma_none start curlyPair (by decide), enclosed_none start squarePair (by decide)]

theorem mark_word (mark : String) {first : Char} {others : List Char}
    (written : mark.toList = first :: others) (visible : isSeparatingBlank first = false)
    (rest : List Char) : mark? mark (mark.toList ++ rest) = some rest := by
  rw [mark_eq_some_iff, written, List.cons_append, skipBlanks_cons visible]

theorem function_primary (items : List.Forall₂ (Reads pattern endsListener) codes parameters)
    (body : Reads expression endsBlock code result) :
    ReadsPrimary ("function(".toList ++ commaList codes ++ ")\x7breturn ".toList ++ code ++ ['\x7d'])
      (.function parameters result) := by
  have starts (rest : List Char) : "function(".toList ++ commaList codes ++ ")\x7breturn ".toList ++
      code ++ ['\x7d'] ++ rest = "function".toList ++ '(' :: (commaList codes ++ ')' :: '\x7b' ::
        ("return".toList ++ ' ' :: (code ++ '\x7d' :: rest))) := by simp
  have found (rest : List Char) := anyName_written "function".toList rfl (d := '(') rfl
    (commaList codes ++ ')' :: '\x7b' :: ("return".toList ++ ' ' :: (code ++ '\x7d' :: rest)))
  refine ⟨fun rest _ => ?_, fun rest _ => ?_⟩
  · rw [starts]
    exact unaryOperator_none_of_name (found rest) (by decide) (by decide)
  obtain ⟨blanks, blank, read⟩ := (body.blank fun c stops =>
    isSeparatingBlank_of_endsOperand (endsOperand_of_endsBlock stops)) '\x7d' rest rfl
  have found := found rest
  have opened := mark_self "\x7b" '\x7b' rfl rfl ("return".toList ++ ' ' :: (code ++ '\x7d' :: rest))
  have returned := mark_word "return" rfl rfl (' ' :: (code ++ '\x7d' :: rest))
  have noSemicolon : mark? ";" (blanks ++ '\x7d' :: rest) = none := by
    rw [mark_skip blank]
    exact mark_none (skipBlanks_cons rfl _) _ rfl (by decide)
  have closed : mark? "\x7d" (blanks ++ '\x7d' :: rest) = some rest := by
    rw [mark_skip blank]
    exact mark_self _ '\x7d' rfl rfl _
  have given := enclosed_reads roundPair pattern_shortens pattern_none_of_round items
    ('\x7b' :: ("return".toList ++ ' ' :: (code ++ '\x7d' :: rest)))
  rw [starts]
  generalize "function".toList ++ _ = whole at found ⊢
  generalize '(' :: (commaList codes ++ _) = afterWord at found given
  generalize "return".toList ++ _ = inside at given opened returned
  generalize '\x7b' :: inside = afterParameters at given opened
  apply primary_function
  rw [List.cons_append] at read
  simp [function, word?, found, given, opened, returned, read, noSemicolon, closed]

theorem function_operand (items : List.Forall₂ (Reads pattern endsListener) codes parameters)
    (body : Reads expression endsBlock code result) :
    ReadsOperand ("function(".toList ++ commaList codes ++ ")\x7breturn ".toList ++ code ++ ['\x7d'])
      (.function parameters result) :=
  (function_primary items body).operand

end Functions

/-! ## Sums -/

def plusTail (codes : List (List Char)) : List Char := codes.flatMap fun code => '+' :: code

def addAll (first : Expr) (others : List Expr) : Expr := others.foldl (Expr.binary .add) first

/-- The levels of operators that are looser than addition. -/
def looserLevels : List (List (String × BinaryOperator)) := operatorLevels.take 4

def additionLevel : List (String × BinaryOperator) := [("+", .add), ("-", .subtract)]

def productLevel : List (String × BinaryOperator) :=
  [("*", .multiply), ("/", .divide), ("%", .remainder)]

theorem operatorLevels_eq : operatorLevels = looserLevels ++ [additionLevel, productLevel] := rfl

theorem term_reads (read : ReadsOperand code result) {d : Char}
    (ends : endsBlock d = true ∨ d = '+') (tail : List Char) :
    binary expression [productLevel] (code ++ d :: tail) = some (result, d :: tail) := by
  have inside : endsOperand d = true := by
    rcases ends with ends | rfl
    · exact endsOperand_of_endsBlock ends
    · rfl
  obtain ⟨noUnary, operand⟩ := read d tail inside
  refine binary_of_unary (unary_of_operand noUnary operand) fun level held => ?_
  obtain rfl := List.mem_singleton.mp held
  refine binaryOperator_none_of_starts
    (skipBlanks_cons (isSeparatingBlank_of_endsOperand inside) tail) ?_
  rcases endsOperand_cases inside with rfl | rfl | rfl | rfl | rfl | rfl | rfl <;> decide

theorem plusTail_start (codes : List (List Char)) {d : Char} (ends : endsBlock d = true)
    (tail : List Char) :
    ∃ e more, (endsBlock e = true ∨ e = '+') ∧ plusTail codes ++ d :: tail = e :: more := by
  cases codes with
  | nil => exact ⟨d, tail, .inl ends, rfl⟩
  | cons code codes => exact ⟨'+', _, .inr rfl, rfl⟩

theorem binary_shortens (levels : List (List (String × BinaryOperator)))
    (inner : ∀ level ∈ levels, ∀ entry ∈ level, isInnerMark entry.1 = true) :
    Shortens (binary expression levels) := fun source _ _ found =>
  (binary_match levels inner (expression_paired source.length source.length) [] source source
    (samePairing_self [] source) (Nat.lt_succ_self _) (Nat.lt_succ_self _)).length_lt found

theorem continuation_shortens (level : List (String × BinaryOperator)) {tighter : Reader Expr}
    (inner : ∀ entry ∈ level, isInnerMark entry.1 = true) (shortens : Shortens tighter) :
    Shortens (continuation level tighter) := by
  intro source _ _ found
  have paired : Paired samePairing.holds source.length source.length tighter tighter := by
    intro _ left right related _ _
    cases related
    exact match_self fun result rest read => shortens left result rest read
  exact (continuation_match inner paired (samePairing_self [] source) (Nat.le_refl _)
    (Nat.le_refl _)).length_lt found

theorem additions_read {codes : List (List Char)} {results : List Expr}
    (terms : List.Forall₂ ReadsOperand codes results) {d : Char} (ends : endsBlock d = true)
    (tail : List Char) :
    many (continuation additionLevel (binary expression [productLevel])) (plusTail codes ++ d :: tail) =
      (results.map fun term => (BinaryOperator.add, term), d :: tail) := by
  have shortens := continuation_shortens additionLevel (by decide)
    (binary_shortens [productLevel] (by decide))
  induction terms with
  | nil =>
    have noOperator : binaryOperator additionLevel (d :: tail) = none :=
      operators_none ends (skipBlanks_cons (isSeparatingBlank_of_endsOperand
        (endsOperand_of_endsBlock ends)) tail) additionLevel (by decide)
    exact many_none _ (by simp [plusTail, continuation, noOperator])
  | @cons code result codes results term terms ih =>
    obtain ⟨e, more, next, split⟩ := plusTail_start codes ends tail
    have source : plusTail (code :: codes) ++ d :: tail = '+' :: (code ++ e :: more) := by
      rw [← split]
      simp [plusTail]
    have operator : binaryOperator additionLevel ('+' :: (code ++ e :: more)) =
        some (.add, code ++ e :: more) := by
      simp [binaryOperator, additionLevel, mark_self "+" '+' rfl rfl]
    rw [split] at ih
    rw [source, many_eq shortens]
    simp only [continuation, operator, term_reads term next more, Option.map_some, ih,
      List.map_cons]

/-- Operands with plus signs between them are read as their sum. -/
theorem sum_reads {first : List Char} {firstResult : Expr} {codes : List (List Char)}
    {results : List Expr} (start : ReadsOperand first firstResult)
    (terms : List.Forall₂ ReadsOperand codes results) :
    Reads expression endsBlock (first ++ plusTail codes) (addAll firstResult results) := by
  intro d tail ends
  obtain ⟨e, more, next, split⟩ := plusTail_start codes ends tail
  have others := additions_read terms ends tail
  have sum : binary expression [additionLevel, productLevel] (first ++ plusTail codes ++ d :: tail) =
      some (addAll firstResult results, d :: tail) := by
    rw [split] at others
    rw [List.append_assoc, split, binary, chain, term_reads start next more]
    simp only [others, List.foldl_map, addAll]
  exact ⟨[], rfl, expression_of_binary _ _ operatorLevels_eq sum ends
    (skipBlanks_cons (isSeparatingBlank_of_endsOperand (endsOperand_of_endsBlock ends)) tail)⟩

/-! ## Conditionals -/

theorem Reads.starts {stops : Char → Bool} (comma : stops ',' = true)
    (reads : Reads expression stops code result) :
    ∃ c more, code = c :: more ∧ startsNothing c = false := by
  obtain ⟨blanks, -, read⟩ := reads ',' [] comma
  cases code with
  | nil => rw [List.nil_append, expression_none (by decide)] at read; cases read
  | cons c more =>
    refine ⟨c, more, rfl, ?_⟩
    by_contra nothing
    rw [List.cons_append, expression_none (by simpa using nothing)] at read
    cases read

/-- No operator is a question mark with something else behind it. -/
theorem operators_none_of_question {code : List Char} (starts : ∃ c more, code = c :: more ∧ c ≠ '?') :
    ∀ level ∈ operatorLevels, binaryOperator level ('?' :: code) = none := by
  obtain ⟨c, more, rfl, differs⟩ := starts
  intro level held
  simp only [operatorLevels, List.mem_cons, List.not_mem_nil, or_false] at held
  rcases held with rfl | held
  · simp [binaryOperator, mark?, skipBlanks_cons, isSeparatingBlank, dropLeading?, differs.symm]
  · refine binaryOperator_none_of_starts (skipBlanks_cons rfl _) ?_
    rcases held with rfl | rfl | rfl | rfl | rfl <;> decide

theorem Reads.starts_behind {stops : Char → Bool} (comma : stops ',' = true)
    (reads : Reads expression stops code result) (behind : List Char) :
    ∃ c more, code ++ behind = c :: more ∧ c ≠ '?' := by
  obtain ⟨c, more, rfl, starts⟩ := reads.starts comma
  refine ⟨c, more ++ behind, rfl, ?_⟩
  rintro rfl
  cases starts

theorem expression_of_outcomes {source whenTrue behind rest : List Char}
    {testResult trueResult falseResult : Expr}
    (testRead : binary expression operatorLevels source =
      some (testResult, '?' :: (whenTrue ++ ':' :: behind)))
    (trueReads : Reads expression endsBlock whenTrue trueResult)
    (falseRead : expression behind = some (falseResult, rest)) :
    expression source = some (.conditional testResult trueResult falseResult, rest) := by
  obtain ⟨blanks, blank, trueRead⟩ := trueReads ':' behind rfl
  have asked := mark_self "?" '?' rfl rfl (whenTrue ++ ':' :: behind)
  have colon : mark? ":" (blanks ++ ':' :: behind) = some behind := by
    rw [mark_skip blank]
    exact mark_self _ ':' rfl rfl _
  rw [expression_eq, expressionWith, testRead]
  simp [outcomes, asked, trueRead, colon, falseRead]

theorem conditional_reads {test whenTrue whenFalse : List Char} {testResult trueResult falseResult : Expr}
    (testReads : Reads expression endsListener test testResult)
    (trueReads : Reads expression endsBlock whenTrue trueResult)
    (falseReads : Reads expression endsBlock whenFalse falseResult) :
    Reads expression endsBlock ('(' :: test ++ ")?".toList ++ whenTrue ++ ':' :: whenFalse)
      (.conditional testResult trueResult falseResult) := by
  intro d tail ends
  obtain ⟨noUnary, operand⟩ := group_operand testReads '?' (whenTrue ++ ':' :: (whenFalse ++ d :: tail)) rfl
  obtain ⟨last, lastBlank, falseRead⟩ := falseReads d tail ends
  have source : '(' :: test ++ ")?".toList ++ whenTrue ++ ':' :: whenFalse ++ d :: tail =
      '(' :: test ++ [')'] ++ '?' :: (whenTrue ++ ':' :: (whenFalse ++ d :: tail)) := by simp
  have noOperator := operators_none_of_question
    (trueReads.starts_behind rfl (':' :: (whenFalse ++ d :: tail)))
  refine ⟨last, lastBlank, ?_⟩
  rw [source]
  exact expression_of_outcomes (binary_of_unary (unary_of_operand noUnary operand) noOperator) trueReads
    falseRead

/-! ## Programs -/

theorem program_reads (reads : Reads expression endsBlock code result) :
    program ("with(this)\x7breturn ".toList ++ code ++ ['\x7d']) = some (result, []) := by
  obtain ⟨blanks, blank, read⟩ := (reads.blank fun c stops =>
    isSeparatingBlank_of_endsOperand (endsOperand_of_endsBlock stops)) '\x7d' [] rfl
  have source : "with(this)\x7breturn ".toList ++ code ++ ['\x7d'] =
      "with".toList ++ '(' :: ("this".toList ++ ')' :: '\x7b' ::
        ("return".toList ++ ' ' :: (code ++ ['\x7d']))) := by simp
  have withWord := mark_word "with" rfl rfl
    ('(' :: ("this".toList ++ ')' :: '\x7b' :: ("return".toList ++ ' ' :: (code ++ ['\x7d']))))
  have opened := mark_self "(" '(' rfl rfl
    ("this".toList ++ ')' :: '\x7b' :: ("return".toList ++ ' ' :: (code ++ ['\x7d'])))
  have thisWord := mark_word "this" rfl rfl
    (')' :: '\x7b' :: ("return".toList ++ ' ' :: (code ++ ['\x7d'])))
  have closed := mark_self ")" ')' rfl rfl
    ('\x7b' :: ("return".toList ++ ' ' :: (code ++ ['\x7d'])))
  have entered := mark_self "\x7b" '\x7b' rfl rfl
    ("return".toList ++ ' ' :: (code ++ ['\x7d']))
  have returned := mark_word "return" rfl rfl (' ' :: (code ++ ['\x7d']))
  have noSemicolon : mark? ";" (blanks ++ ['\x7d']) = none := by
    rw [mark_skip blank]
    exact mark_none (skipBlanks_cons rfl _) _ rfl (by decide)
  have left : mark? "\x7d" (blanks ++ ['\x7d']) = some [] := by
    rw [mark_skip blank]
    exact mark_self _ '\x7d' rfl rfl _
  rw [source]
  generalize "with".toList ++ _ = whole at withWord ⊢
  generalize '(' :: _ = afterWith at withWord opened
  generalize "this".toList ++ _ = afterOpen at opened thisWord
  generalize ')' :: _ = afterThis at thisWord closed
  generalize "return".toList ++ _ = inside at closed entered returned
  generalize '\x7b' :: inside = afterClose at closed entered
  rw [List.cons_append] at read
  simp [program, withWord, opened, thisWord, closed, entered, returned, read, noSemicolon, left]

end Templating.Expression.Grammar
