import Templating.Proofs.Grammar.Sequences
/-!
# Reading operands

The first character of an operand decides which alternative reads it: a name, a
literal, a bracket.  Behind the operand a character that continues no operand
ends it.
-/
set_option autoImplicit false

namespace Templating.Expression.Grammar

open Templating.Text

/-- What may stand behind a whole expression in written source. -/
def endsBlock (c : Char) : Bool := endsListener c || c == ':'

/-- What may stand behind an operand in written source. -/
def endsOperand (c : Char) : Bool := endsBlock c || c == '+' || c == '?'

theorem endsOperand_cases {c : Char} (ends : endsOperand c = true) :
    c = ',' ∨ c = ')' ∨ c = ']' ∨ c = '\x7d' ∨ c = ':' ∨ c = '+' ∨ c = '?' := by
  simpa [endsOperand, endsBlock, endsListener, endsNested, or_assoc] using ends

theorem endsBlock_cases {c : Char} (ends : endsBlock c = true) :
    c = ',' ∨ c = ')' ∨ c = ']' ∨ c = '\x7d' ∨ c = ':' := by
  simpa [endsBlock, endsListener, endsNested, or_assoc] using ends

/-! ## Alternatives that do not start here -/

section Start

variable {source rest : List Char} {c : Char} (start : skipBlanks source = c :: rest)

include start

theorem mark_none (mark : String) {first : Char} {others : List Char}
    (written : mark.toList = first :: others) (differs : first ≠ c) : mark? mark source = none := by
  simp [mark?, start, written, dropLeading?, differs]

theorem anyName_none (noName : isNameStart c = false) : anyName source = none := by
  simp [anyName, start, noName]

theorem word_none (noName : isNameStart c = false) (word : String) : word? word source = none := by
  simp [word?, anyName_none start noName]

theorem function_none (noName : isNameStart c = false) (nested : Reader Expr) :
    function nested source = none := by
  simp [function, word_none start noName]

theorem wordLiteral_none (noName : isNameStart c = false) : wordLiteral source = none := by
  simp [wordLiteral, anyName_none start noName]

theorem variableName_none (noName : isNameStart c = false) : variableName source = none := by
  simp [variableName, anyName_none start noName]

theorem textLiteral_none (noQuote : c ≠ '\x22') (noTick : c ≠ '\x27') :
    textLiteral source = none := by
  simp [textLiteral, start, noQuote, noTick]

theorem numberText_none (noDigit : isAsciiDigit c = false) (noPoint : c ≠ '.') :
    numberText source = none := by
  simp [numberText, start, noDigit, fraction, noPoint]

theorem numberLiteral_none (noDigit : isAsciiDigit c = false) (noPoint : c ≠ '.') :
    numberLiteral source = none := by
  simp [numberLiteral, numberText_none start noDigit noPoint]

section Brackets

variable {α : Type} {opening closing : String} {opener closer : Char}

theorem enclosed_none (pair : IsBracketPair opening closing opener closer) (differs : opener ≠ c)
    (item : Reader α) : enclosed opening closing item source = none := by
  simp [enclosed, mark_none start _ pair.openingText differs]

theorem enclosedWithComma_none (pair : IsBracketPair opening closing opener closer)
    (differs : opener ≠ c) (item : Reader α) :
    enclosedWithComma opening closing item source = none := by
  simp [enclosedWithComma, mark_none start _ pair.openingText differs]

end Brackets

theorem parenthesized_none (noRound : '(' ≠ c) (nested : Reader Expr) :
    parenthesized nested source = none := by
  simp [parenthesized, mark_none start "(" rfl noRound]

theorem unaryOperator_none (noName : isNameStart c = false) (noNot : '!' ≠ c) (noMinus : '-' ≠ c)
    (noPlus : '+' ≠ c) : unaryOperator source = none := by
  rw [unaryOperator_eq, mark_none start "!" rfl noNot,
    mark_none start "-" rfl noMinus, mark_none start "+" rfl noPlus,
    word_none start noName, word_none start noName]
  rfl

theorem access_none_of_start (noPoint : '.' ≠ c) (noSquare : '[' ≠ c) (noRound : '(' ≠ c)
    (nested : Reader Expr) : access nested source = none := by
  simp [access, mark_none start "." rfl noPoint, mark_none start "[" rfl noSquare,
    enclosed_none start roundPair noRound]

end Start

def startsNothing (c : Char) : Bool :=
  !isSeparatingBlank c && !isNameStart c && !isAsciiDigit c &&
    !(['.', '\x22', '\x27', '\x7b', '[', '(', '!', '-', '+'].contains c)

theorem primary_none {c : Char} (nothing : startsNothing c = true) (nested : Reader Expr)
    (rest : List Char) : primary nested (c :: rest) = none := by
  simp only [startsNothing, List.contains_cons, List.contains_nil, Bool.and_eq_true,
    Bool.not_eq_true', Bool.or_eq_false_iff, beq_eq_false_iff_ne, Bool.or_false] at nothing
  obtain ⟨⟨⟨visible, noName⟩, noDigit⟩, noPoint, noQuote, noTick, noCurly, noSquare, noRound, -⟩ :=
    nothing
  have start := skipBlanks_cons visible rest
  simp [primary, function_none start noName, enclosedWithComma_none start curlyPair noCurly.symm,
    enclosed_none start squarePair noSquare.symm, textLiteral_none start noQuote noTick,
    numberLiteral_none start noDigit noPoint, wordLiteral_none start noName,
    variableName_none start noName, parenthesized_none start noRound.symm]

theorem expression_none {c : Char} (nothing : startsNothing c = true) (rest : List Char) :
    expression (c :: rest) = none := by
  have refused := primary_none nothing expression rest
  simp only [startsNothing, List.contains_cons, List.contains_nil, Bool.and_eq_true,
    Bool.not_eq_true', Bool.or_eq_false_iff, beq_eq_false_iff_ne, Bool.or_false] at nothing
  obtain ⟨⟨⟨visible, noName⟩, -⟩, -, -, -, -, -, -, noNot, noMinus, noPlus⟩ := nothing
  have start := skipBlanks_cons visible rest
  have operators := many_none _ (unaryOperator_none start noName noNot.symm noMinus.symm noPlus.symm)
  have unaryNone : unary expression (c :: rest) = none := by
    simp [unary, operators, operand, refused]
  have binaryNone : ∀ levels, binary expression levels (c :: rest) = none := by
    intro levels
    induction levels with
    | nil => exact unaryNone
    | cons level tighter ih => simp [binary, chain, ih]
  rw [expression_eq, expressionWith, binaryNone]

theorem expression_shortens : Shortens expression := fun _ _ _ found => expression_length_lt found

/-! ## Operands by their first token -/

theorem ne_of_isNameStart {c d : Char} (start : isNameStart c = true) (other : isNameStart d = false) :
    d ≠ c := by
  rintro rfl
  simp [start] at other

section Primary

variable {nested : Reader Expr} {source rest : List Char}

theorem isAsciiDigit_of_isNameStart {c : Char} (start : isNameStart c = true) :
    isAsciiDigit c = false := by
  have letters : ∀ d : Char, isNameStart d = true → d.toNat < 48 ∨ 57 < d.toNat := by
    intro d started
    simp only [isNameStart, isAsciiLetter, Bool.or_eq_true, Bool.and_eq_true, decide_eq_true_eq,
      beq_iff_eq, Char.le_def, UInt32.le_iff_toNat_le] at started
    rcases started with (⟨⟨low, _⟩ | ⟨low, _⟩⟩ | rfl) | rfl
    · exact .inr (Nat.lt_of_lt_of_le (by decide) low)
    · exact .inr (Nat.lt_of_lt_of_le (by decide) low)
    · exact .inr (by decide)
    · exact .inl (by decide)
  by_contra digit
  simp only [isAsciiDigit, Bool.not_eq_false, Bool.and_eq_true, decide_eq_true_eq, Char.le_def,
    UInt32.le_iff_toNat_le] at digit
  obtain ⟨low, high⟩ := digit
  have bounds : 48 ≤ c.toNat ∧ c.toNat ≤ 57 := ⟨low, high⟩
  have outside := letters c start
  omega

theorem isNameStart_of_isAsciiDigit {c : Char} (digit : isAsciiDigit c = true) :
    isNameStart c = false := by
  by_contra start
  rw [isAsciiDigit_of_isNameStart (eq_true_of_ne_false start)] at digit
  cases digit

theorem primary_of_name {name : String} (found : anyName source = some (name, rest))
    (noFunction : name ≠ "function") :
    primary nested source = (wordLiteral source).orElse fun _ =>
      ((variableName source).map fun (name, rest) => (Expr.name name, rest)) := by
  obtain ⟨c, taken, start, -, -, split⟩ := anyName_eq_some found
  have differs := fun d other => ne_of_isNameStart (d := d) start other
  have noWord : function nested source = none := by simp [function, word?, found, noFunction]
  have noRecord := enclosedWithComma_none split curlyPair (differs '\x7b' rfl) (entryWith nested)
  have noList := enclosed_none split squarePair (differs '[' rfl) nested
  have noText := textLiteral_none split (differs '\x22' rfl).symm (differs '\x27' rfl).symm
  have noNumber := numberLiteral_none split (isAsciiDigit_of_isNameStart start) (differs '.' rfl).symm
  have noGroup := parenthesized_none split (differs '(' rfl) nested
  simp [primary, noWord, noRecord, noList, noText, noNumber, noGroup]

theorem primary_name {name : String} (found : anyName source = some (name, rest))
    (free : name ∉ reserved) :
    primary nested source = some (.name name, rest) := by
  have others : ∀ word ∈ reserved, name ≠ word := by
    rintro word held rfl
    exact free held
  rw [primary_of_name found (others "function" (by decide))]
  simp [wordLiteral, variableName, found, free, others "true" (by decide),
    others "false" (by decide), others "null" (by decide), others "undefined" (by decide),
    others "this" (by decide)]

theorem primary_null (found : anyName source = some ("null", rest)) :
    primary nested source = some (.literal .null, rest) := by
  rw [primary_of_name found (by decide)]
  simp [wordLiteral, found]

theorem primary_undefined (found : anyName source = some ("undefined", rest)) :
    primary nested source = some (.literal .undefined, rest) := by
  rw [primary_of_name found (by decide)]
  simp [wordLiteral, found]

theorem primary_true (found : anyName source = some ("true", rest)) :
    primary nested source = some (.literal (.boolean true), rest) := by
  rw [primary_of_name found (by decide)]
  simp [wordLiteral, found]

theorem primary_false (found : anyName source = some ("false", rest)) :
    primary nested source = some (.literal (.boolean false), rest) := by
  rw [primary_of_name found (by decide)]
  simp [wordLiteral, found]

theorem primary_this (found : anyName source = some ("this", rest)) :
    primary nested source = some (.this, rest) := by
  rw [primary_of_name found (by decide)]
  simp [wordLiteral, found]

theorem primary_text {c : Char} {more : List Char} {content : String}
    (start : skipBlanks source = c :: more) (quote : c = '\x22' ∨ c = '\x27')
    (found : textLiteral source = some (content, rest)) :
    primary nested source = some (.literal (.string content), rest) := by
  have noName : isNameStart c = false := by rcases quote with rfl | rfl <;> rfl
  have noRecord := enclosedWithComma_none start curlyPair
    (by rcases quote with rfl | rfl <;> decide) (entryWith nested)
  have noList := enclosed_none start squarePair (by rcases quote with rfl | rfl <;> decide) nested
  simp [primary, function_none start noName, noRecord, noList, found]

theorem primary_literal (content rest : List Char) :
    primary nested (Literal.encodeChars content ++ rest) =
      some (.literal (.string (String.ofList content)), rest) :=
  primary_text (skipBlanks_cons rfl _) (.inl rfl) (textLiteral_encodeChars content rest)

theorem primary_number {digits : List Char} {c : Char} {more : List Char}
    (start : skipBlanks source = c :: more) (digit : isAsciiDigit c = true)
    (found : numberText source = some (digits, rest)) :
    primary nested source =
      some (.literal (.number ((Number.read? digits).getD Number.notANumber)), rest) := by
  have noName := isNameStart_of_isAsciiDigit digit
  have differs : ∀ d, isAsciiDigit d = false → d ≠ c := by
    rintro d other rfl
    simp [digit] at other
  have noText := textLiteral_none start (differs '\x22' rfl).symm (differs '\x27' rfl).symm
  simp [primary, function_none start noName, noText,
    enclosedWithComma_none start curlyPair (differs '\x7b' rfl),
    enclosed_none start squarePair (differs '[' rfl), numberLiteral, found]

theorem primary_record {entries : List (Key × Expr)} {more : List Char}
    (start : skipBlanks source = '\x7b' :: more)
    (found : enclosedWithComma "\x7b" "\x7d" (entryWith nested) source = some (entries, rest)) :
    primary nested source = some (.record entries, rest) := by
  simp [primary, function_none start (by decide), found]

theorem primary_list {items : List Expr} {more : List Char}
    (start : skipBlanks source = '[' :: more)
    (found : enclosed "[" "]" nested source = some (items, rest)) :
    primary nested source = some (.list items, rest) := by
  simp [primary, function_none start (by decide),
    enclosedWithComma_none start curlyPair (by decide), found]

theorem primary_parenthesized {more : List Char} (start : skipBlanks source = '(' :: more) :
    primary nested source = parenthesized nested source := by
  simp [primary, function_none start (by decide),
    enclosedWithComma_none start curlyPair (by decide),
    enclosed_none start squarePair (by decide), textLiteral_none start (by decide) (by decide),
    numberLiteral_none start (by decide) (by decide), wordLiteral_none start (by decide),
    variableName_none start (by decide)]

theorem primary_function {result : Expr} (found : function nested source = some (result, rest)) :
    primary nested source = some (result, rest) := by
  simp [primary, found]

end Primary

/-! ## What ends an operand -/

section Behind

variable {d : Char} (ends : endsOperand d = true) {rest tail : List Char}
  (behind : skipBlanks rest = d :: tail)

include ends behind

theorem access_none (nested : Reader Expr) : access nested rest = none := by
  have differs : ∀ c, endsOperand c = false → c ≠ d := by
    rintro c other rfl
    simp [ends] at other
  exact access_none_of_start behind (differs '.' rfl) (differs '[' rfl) (differs '(' rfl) nested

theorem operand_of_primary {source : List Char} {result : Expr}
    (read : primary expression source = some (result, rest)) :
    operand expression source = some (result, rest) := by
  simp [operand, read, many_none _ (access_none ends behind expression)]

end Behind

theorem access_shortens : Shortens (access expression) := fun source _ _ found =>
  (access_match (expression_paired source.length source.length) (samePairing_self [] source)
    (Nat.le_refl _) (Nat.le_refl _)).length_lt found

theorem operand_call {source inside rest tail : List Char} {callee : Expr} {arguments : List Expr}
    {d : Char} (read : primary expression source = some (callee, inside)) {more : List Char}
    (opened : skipBlanks inside = '(' :: more)
    (called : enclosed "(" ")" expression inside = some (arguments, rest))
    (ends : endsOperand d = true) (behind : skipBlanks rest = d :: tail) :
    operand expression source = some (.call callee arguments, rest) := by
  have noMember := mark_none opened "." rfl (by decide)
  have noIndex := mark_none opened "[" rfl (by decide)
  have first : access expression inside = some (.call arguments, rest) := by
    simp [access, noMember, noIndex, called]
  have stop := many_none _ (access_none ends behind expression)
  simp [operand, read, many_eq access_shortens inside, first, stop, Access.apply]

/-! ## Expressions of one operand -/

theorem binary_append {nested : Reader Expr} {source rest : List Char} {result : Expr}
    (levels tighter : List (List (String × BinaryOperator)))
    (read : binary nested tighter source = some (result, rest))
    (noOperator : ∀ level ∈ levels, binaryOperator level rest = none) :
    binary nested (levels ++ tighter) source = some (result, rest) := by
  induction levels with
  | nil => exact read
  | cons level others ih =>
    have inner := ih fun other held => noOperator other (List.mem_cons_of_mem level held)
    have stop := many_none (continuation level (binary nested (others ++ tighter)))
      (by simp [continuation, noOperator level List.mem_cons_self] :
        continuation level (binary nested (others ++ tighter)) rest = none)
    simp [binary, chain, inner, stop]

theorem binary_of_unary {nested : Reader Expr} {source rest : List Char} {result : Expr}
    (read : unary nested source = some (result, rest)) {levels : List (List (String × BinaryOperator))}
    (noOperator : ∀ level ∈ levels, binaryOperator level rest = none) :
    binary nested levels source = some (result, rest) := by
  have found := binary_append levels [] read noOperator
  rwa [List.append_nil] at found

theorem unary_of_operand {nested : Reader Expr} {source rest : List Char} {result : Expr}
    (noUnary : unaryOperator source = none)
    (read : operand nested source = some (result, rest)) :
    unary nested source = some (result, rest) := by
  simp [unary, many_none _ noUnary, read]

theorem binaryOperator_none {d : Char} {rest tail : List Char} (behind : skipBlanks rest = d :: tail)
    {level : List (String × BinaryOperator)}
    (starts : ∀ entry ∈ level, ∃ c others, entry.1.toList = c :: others ∧ c ≠ d) :
    binaryOperator level rest = none := by
  refine List.findSome?_eq_none_iff.mpr fun entry held => ?_
  obtain ⟨c, others, written, differs⟩ := starts entry held
  simp [mark_none behind _ written differs]

def operatorStarts (level : List (String × BinaryOperator)) : List (Option Char) :=
  level.map fun entry => entry.1.toList.head?

theorem binaryOperator_none_of_starts {d : Char} {rest tail : List Char}
    (behind : skipBlanks rest = d :: tail) {level : List (String × BinaryOperator)}
    (others : ∀ start ∈ operatorStarts level, start.any (· != d) = true) :
    binaryOperator level rest = none := by
  refine binaryOperator_none behind fun entry held => ?_
  have differs := others _ (List.mem_map_of_mem held)
  cases written : entry.1.toList with
  | nil => simp [written] at differs
  | cons c more => exact ⟨c, more, rfl, by simpa [written] using differs⟩

theorem operators_none {d : Char} (ends : endsBlock d = true) {rest tail : List Char}
    (behind : skipBlanks rest = d :: tail) :
    ∀ level ∈ operatorLevels, binaryOperator level rest = none := by
  intro level held
  refine binaryOperator_none_of_starts behind ?_
  rcases endsBlock_cases ends with rfl | rfl | rfl | rfl | rfl <;> revert level <;> decide

/-- What the tightest levels read is the expression where nothing follows. -/
theorem expression_of_binary {source rest tail : List Char} {result : Expr} {d : Char}
    (levels tighter : List (List (String × BinaryOperator))) (split : operatorLevels = levels ++ tighter)
    (read : binary expression tighter source = some (result, rest)) (ends : endsBlock d = true)
    (behind : skipBlanks rest = d :: tail) : expression source = some (result, rest) := by
  have noBranch : mark? "?" rest = none :=
    mark_none behind _ rfl (by rcases endsBlock_cases ends with rfl | rfl | rfl | rfl | rfl <;> decide)
  have whole := binary_append levels tighter read fun level held =>
    operators_none ends behind level (split ▸ List.mem_append_left tighter held)
  rw [← split] at whole
  rw [expression_eq, expressionWith, whole]
  simp [outcomes, noBranch]

theorem expression_of_operand {source rest tail : List Char} {result : Expr} {d : Char}
    (noUnary : unaryOperator source = none)
    (read : operand expression source = some (result, rest)) (ends : endsBlock d = true)
    (behind : skipBlanks rest = d :: tail) : expression source = some (result, rest) :=
  expression_of_binary operatorLevels [] (List.append_nil _).symm (unary_of_operand noUnary read) ends
    behind

end Templating.Expression.Grammar
