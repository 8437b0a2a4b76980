import Templating.Proofs.Grammar.Operands
/-!
# Source that is read back

The forms in which operands are written: literals, calls, lists and objects.
Each is read as the expression that it was written for, if its parts are.
-/
set_option autoImplicit false

namespace Templating.Expression.Grammar

open Templating.Text

/-- Before every character that ends an operand, `code` is read as one operand. -/
def ReadsOperand (code : List Char) (result : Expr) : Prop :=
  ∀ d tail, endsOperand d = true → unaryOperator (code ++ d :: tail) = none ∧
    operand expression (code ++ d :: tail) = some (result, d :: tail)

def EndsName (rest : List Char) : Prop := ∀ c ∈ rest.head?, isNameChar c = false

/-- Wherever no name goes on, `code` is read as one primary expression, and starts no unary
operator. -/
structure ReadsPrimary (code : List Char) (result : Expr) : Prop where
  noUnary : ∀ rest, EndsName rest → unaryOperator (code ++ rest) = none
  read : ∀ rest, EndsName rest → primary expression (code ++ rest) = some (result, rest)

variable {α : Type} {code : List Char} {result : Expr}

theorem Reads.weaken {reader : Reader α} {stops fewer : Char → Bool} {result : α}
    (reads : Reads reader stops code result) (fewerStops : ∀ c, fewer c = true → stops c = true) :
    Reads reader fewer code result :=
  fun d tail ends => reads d tail (fewerStops d ends)

theorem endsBlock_of_endsListener {c : Char} (ends : endsListener c = true) :
    endsBlock c = true := by
  simp [endsBlock, ends]

theorem endsOperand_of_endsBlock {c : Char} (ends : endsBlock c = true) : endsOperand c = true := by
  simp [endsOperand, ends]

theorem isSeparatingBlank_of_endsOperand {c : Char} (ends : endsOperand c = true) :
    isSeparatingBlank c = false := by
  rcases endsOperand_cases ends with rfl | rfl | rfl | rfl | rfl | rfl | rfl <;> rfl

theorem isNameChar_of_endsOperand {c : Char} (ends : endsOperand c = true) :
    isNameChar c = false := by
  rcases endsOperand_cases ends with rfl | rfl | rfl | rfl | rfl | rfl | rfl <;> rfl

theorem ReadsOperand.reads (read : ReadsOperand code result) :
    Reads expression endsBlock code result := by
  intro d tail ends
  have inside := endsOperand_of_endsBlock ends
  obtain ⟨noUnary, operand⟩ := read d tail inside
  exact ⟨[], rfl, expression_of_operand noUnary operand ends
    (skipBlanks_cons (isSeparatingBlank_of_endsOperand inside) tail)⟩

theorem ReadsOperand.listed (read : ReadsOperand code result) :
    Reads expression endsListener code result :=
  read.reads.weaken fun _ ends => endsBlock_of_endsListener ends

theorem ReadsOperand.ofPrimary
    (noUnary : ∀ rest, unaryOperator (code ++ rest) = none)
    (read : ∀ d tail, endsOperand d = true →
      primary expression (code ++ d :: tail) = some (result, d :: tail)) :
    ReadsOperand code result := fun d tail ends =>
  ⟨noUnary (d :: tail), operand_of_primary ends
    (skipBlanks_cons (isSeparatingBlank_of_endsOperand ends) tail) (read d tail ends)⟩

theorem endsName_cons {c : Char} (stops : isNameChar c = false) (rest : List Char) :
    EndsName (c :: rest) := by
  intro first same
  cases same
  exact stops

theorem ReadsPrimary.operand (reads : ReadsPrimary code result) : ReadsOperand code result := by
  intro d tail ends
  have name := endsName_cons (isNameChar_of_endsOperand ends) tail
  exact ⟨reads.noUnary _ name, operand_of_primary ends
    (skipBlanks_cons (isSeparatingBlank_of_endsOperand ends) tail) (reads.read _ name)⟩

theorem ReadsPrimary.ofMark {c : Char} (first : code.head? = some c)
    (mark : ['\x22', '(', '[', '\x7b'].contains c = true)
    (read : ∀ rest, primary expression (code ++ rest) = some (result, rest)) :
    ReadsPrimary code result := by
  refine ⟨fun rest _ => ?_, fun rest _ => read rest⟩
  cases code with
  | nil => cases first
  | cons d others =>
    cases first
    simp only [List.contains_cons, List.contains_nil, Bool.or_eq_true, beq_iff_eq, Bool.or_false] at mark
    rcases mark with rfl | rfl | rfl | rfl <;>
      exact unaryOperator_none (skipBlanks_cons rfl _) rfl (by decide) (by decide) (by decide)

/-! ## Literals and brackets -/

theorem literal_primary (content : List Char) :
    ReadsPrimary (Literal.encodeChars content) (.literal (.string (String.ofList content))) :=
  .ofMark rfl rfl fun rest => primary_literal content rest

theorem literal_operand (content : List Char) :
    ReadsOperand (Literal.encodeChars content) (.literal (.string (String.ofList content))) :=
  (literal_primary content).operand

theorem quoted_operand {content : List Char} (plain : ∀ c ∈ content, c ≠ '\\' ∧ c ≠ '\x27') :
    ReadsOperand ('\x27' :: content ++ ['\x27']) (.literal (.string (String.ofList content))) := by
  refine .ofPrimary (fun rest => unaryOperator_none (skipBlanks_cons rfl _) rfl (by decide) (by decide)
    (by decide)) fun d tail _ => ?_
  have inside : ∀ taken : List Char, (∀ c ∈ taken, c ≠ '\\' ∧ c ≠ '\x27') →
      textInside '\x27' (taken ++ '\x27' :: d :: tail) = some (taken, d :: tail) ∧
        Literal.decodeEscapes taken = taken := by
    intro taken plain
    induction taken with
    | nil => exact ⟨textInside_end (by decide) (d :: tail), rfl⟩
    | cons c others ih =>
      obtain ⟨read, decoded⟩ := ih fun e held => plain e (List.mem_cons_of_mem c held)
      obtain ⟨noEscape, noQuote⟩ := plain c List.mem_cons_self
      constructor
      · rw [List.cons_append, textInside_cons noQuote noEscape, read]
        rfl
      · rw [Literal.decodeEscapes_unescaped noEscape, decoded]
  obtain ⟨read, decoded⟩ := inside content plain
  have source : '\x27' :: content ++ ['\x27'] ++ d :: tail =
      '\x27' :: (content ++ '\x27' :: d :: tail) := by simp
  rw [source]
  refine primary_text (skipBlanks_cons rfl _) (.inr rfl) ?_
  simp [textLiteral, skipBlanks_cons, isSeparatingBlank, read, Literal.decode, decoded]

theorem group_primary (inner : Reads expression endsListener code result) :
    ReadsPrimary ('(' :: code ++ [')']) result := by
  refine .ofMark rfl rfl fun rest => ?_
  obtain ⟨blanks, blank, read⟩ := inner ')' rest rfl
  have source : '(' :: code ++ [')'] ++ rest = '(' :: (code ++ ')' :: rest) := by simp
  have opened := mark_self "(" '(' rfl rfl (code ++ ')' :: rest)
  have closed : mark? ")" (blanks ++ ')' :: rest) = some rest := by
    rw [mark_skip blank]
    exact mark_self _ ')' rfl rfl _
  rw [source, primary_parenthesized (skipBlanks_cons rfl _)]
  simp [parenthesized, opened, read, closed]

theorem group_operand (inner : Reads expression endsListener code result) :
    ReadsOperand ('(' :: code ++ [')']) result :=
  (group_primary inner).operand

theorem entry_shortens : Shortens (entryWith expression) := fun source _ _ found =>
  (entryWith_match (expression_paired source.length source.length) (samePairing_self [] source)
    (Nat.le_refl _) (Nat.le_refl _)).length_lt found

theorem entry_none {c : Char} (nothing : startsNothing c = true) (rest : List Char) :
    entryWith expression (c :: rest) = none := by
  simp only [startsNothing, List.contains_cons, List.contains_nil, Bool.and_eq_true,
    Bool.not_eq_true', Bool.or_eq_false_iff, beq_eq_false_iff_ne, Bool.or_false] at nothing
  obtain ⟨⟨⟨visible, noName⟩, noDigit⟩, noPoint, noQuote, noTick, -, noSquare, -⟩ := nothing
  have start := skipBlanks_cons visible rest
  simp [entryWith, listenersEntry, plainEntry, keyWith, anyName_none start noName,
    mark_none start "[" rfl noSquare.symm, textLiteral_none start noQuote noTick,
    numberText_none start noDigit noPoint]

section Items

variable {codes : List (List Char)} {results : List Expr}

theorem list_primary (items : List.Forall₂ (Reads expression endsListener) codes results) :
    ReadsPrimary ('[' :: commaList codes ++ [']']) (.list results) := by
  refine .ofMark rfl rfl fun rest => ?_
  have source : '[' :: commaList codes ++ [']'] ++ rest = '[' :: (commaList codes ++ ']' :: rest) := by
    simp
  rw [source]
  exact primary_list (skipBlanks_cons rfl _) (enclosed_reads squarePair expression_shortens
    (expression_none (by decide)) items _)

theorem list_operand (items : List.Forall₂ (Reads expression endsListener) codes results) :
    ReadsOperand ('[' :: commaList codes ++ [']']) (.list results) :=
  (list_primary items).operand

theorem record_primary {entries : List (Key × Expr)}
    (items : List.Forall₂ (Reads (entryWith expression) endsListener) codes entries) :
    ReadsPrimary ('\x7b' :: commaList codes ++ ['\x7d']) (.record entries) := by
  refine .ofMark rfl rfl fun rest => ?_
  have source : '\x7b' :: commaList codes ++ ['\x7d'] ++ rest =
      '\x7b' :: (commaList codes ++ '\x7d' :: rest) := by simp
  rw [source]
  exact primary_record (skipBlanks_cons rfl _) (enclosedWithComma_reads curlyPair entry_shortens
    (entry_none (by decide)) items _)

theorem record_operand {entries : List (Key × Expr)}
    (items : List.Forall₂ (Reads (entryWith expression) endsListener) codes entries) :
    ReadsOperand ('\x7b' :: commaList codes ++ ['\x7d']) (.record entries) :=
  (record_primary items).operand

end Items

/-! ## Names -/

def isIdentifier (name : List Char) : Bool :=
  match name with
  | [] => false
  | c :: rest => isNameStart c && rest.all isNameChar

theorem anyName_ends (name : List Char) (identifier : isIdentifier name = true) {rest : List Char}
    (ends : EndsName rest) : anyName (name ++ rest) = some (String.ofList name, rest) := by
  cases name with
  | nil => cases identifier
  | cons c others =>
    simp only [isIdentifier, Bool.and_eq_true, List.all_eq_true] at identifier
    obtain ⟨start, named⟩ := identifier
    have visible : isSeparatingBlank c = false := by
      by_contra blank
      rcases isSeparatingBlank_cases (eq_true_of_ne_false blank) with rfl | rfl | rfl | rfl <;> cases start
    have behind : rest.takeWhile isNameChar = [] ∧ rest.dropWhile isNameChar = rest := by
      cases rest with
      | nil => exact ⟨rfl, rfl⟩
      | cons d tail =>
        have stops : ¬ isNameChar d = true := by simp [ends d rfl]
        exact ⟨List.takeWhile_cons_of_neg stops, List.dropWhile_cons_of_neg stops⟩
    have taken : (others ++ rest).takeWhile isNameChar = others := by
      rw [List.takeWhile_append_of_pos named, behind.1, List.append_nil]
    have left : (others ++ rest).dropWhile isNameChar = rest := by
      rw [List.dropWhile_append_of_pos named, behind.2]
    simp [anyName, skipBlanks_cons visible, start, taken, left]

theorem anyName_written (name : List Char) (identifier : isIdentifier name = true) {d : Char}
    (stops : isNameChar d = false) (rest : List Char) :
    anyName (name ++ d :: rest) = some (String.ofList name, d :: rest) :=
  anyName_ends name identifier (endsName_cons stops rest)

theorem unaryOperator_of_name {source rest : List Char} {name : String}
    (found : anyName source = some (name, rest)) :
    unaryOperator source =
      if name == "typeof" then some (.typeOf, rest)
      else if name == "void" then some (.void, rest) else none := by
  obtain ⟨c, taken, start, -, -, split⟩ := anyName_eq_some found
  have differs := fun d other => ne_of_isNameStart (d := d) start other
  rw [unaryOperator_eq, mark_none split "!" rfl (differs '!' rfl),
    mark_none split "-" rfl (differs '-' rfl),
    mark_none split "+" rfl (differs '+' rfl)]
  simp only [word?, found, Option.map_none, Option.orElse_none]
  split <;> split <;> rfl

theorem unaryOperator_none_of_name {source rest : List Char} {name : String}
    (found : anyName source = some (name, rest)) (noTypeOf : name ≠ "typeof")
    (noVoid : name ≠ "void") : unaryOperator source = none := by
  rw [unaryOperator_of_name found]
  simp [noTypeOf, noVoid]

theorem word_primary {word : List Char} (identifier : isIdentifier word = true)
    (noTypeOf : String.ofList word ≠ "typeof") (noVoid : String.ofList word ≠ "void")
    (read : ∀ source rest, anyName source = some (String.ofList word, rest) →
      primary expression source = some (result, rest)) :
    ReadsPrimary word result := by
  refine ⟨fun rest ends => ?_, fun rest ends => ?_⟩
  · exact unaryOperator_none_of_name (anyName_ends word identifier ends) noTypeOf noVoid
  · exact read _ _ (anyName_ends word identifier ends)

theorem null_primary : ReadsPrimary "null".toList (.literal .null) :=
  word_primary rfl (by decide) (by decide) fun _ _ found => primary_null found

theorem undefined_primary : ReadsPrimary "undefined".toList (.literal .undefined) :=
  word_primary rfl (by decide) (by decide) fun _ _ found => primary_undefined found

theorem true_primary : ReadsPrimary "true".toList (.literal (.boolean true)) :=
  word_primary rfl (by decide) (by decide) fun _ _ found => primary_true found

theorem false_primary : ReadsPrimary "false".toList (.literal (.boolean false)) :=
  word_primary rfl (by decide) (by decide) fun _ _ found => primary_false found

theorem this_primary : ReadsPrimary "this".toList .this :=
  word_primary rfl (by decide) (by decide) fun _ _ found => primary_this found

theorem name_primary {name : List Char} (identifier : isIdentifier name = true)
    (free : String.ofList name ∉ reserved) :
    ReadsPrimary name (.name (String.ofList name)) := by
  have others : ∀ word ∈ reserved, String.ofList name ≠ word := by
    rintro word held rfl
    exact free held
  exact word_primary identifier (others "typeof" (by decide)) (others "void" (by decide))
    fun _ _ found => primary_name found free

theorem null_operand : ReadsOperand "null".toList (.literal .null) := null_primary.operand

theorem undefined_operand : ReadsOperand "undefined".toList (.literal .undefined) :=
  undefined_primary.operand

theorem true_operand : ReadsOperand "true".toList (.literal (.boolean true)) := true_primary.operand

theorem false_operand : ReadsOperand "false".toList (.literal (.boolean false)) :=
  false_primary.operand

theorem call_operand {name : List Char} (identifier : isIdentifier name = true)
    (free : String.ofList name ∉ reserved) {codes : List (List Char)} {results : List Expr}
    (items : List.Forall₂ (Reads expression endsListener) codes results) :
    ReadsOperand (name ++ '(' :: commaList codes ++ [')'])
      (.call (.name (String.ofList name)) results) := by
  intro d tail ends
  have source : name ++ '(' :: commaList codes ++ [')'] ++ d :: tail =
      name ++ '(' :: (commaList codes ++ ')' :: d :: tail) := by simp
  have found := anyName_written _ identifier (d := '(') rfl (commaList codes ++ ')' :: d :: tail)
  rw [source]
  refine ⟨unaryOperator_none_of_name found ?_ ?_, operand_call (primary_name found free)
    (skipBlanks_cons rfl _) (enclosed_reads roundPair expression_shortens
      (expression_none (by decide)) items _) ends
    (skipBlanks_cons (isSeparatingBlank_of_endsOperand ends) tail)⟩
  · intro same
    exact free (same ▸ by decide)
  · intro same
    exact free (same ▸ by decide)

theorem number_operand {digits : List Char} (given : digits ≠ [])
    (digit : ∀ c ∈ digits, isAsciiDigit c = true) :
    ReadsOperand digits (.literal (.number ((Number.read? digits).getD Number.notANumber))) := by
  obtain ⟨c, others, rfl⟩ := List.exists_cons_of_ne_nil given
  have differs : ∀ d, isAsciiDigit d = false → d ≠ c := by
    rintro d other rfl
    simp [digit d List.mem_cons_self] at other
  have visible : isSeparatingBlank c = false := by
    by_contra blank
    rcases isSeparatingBlank_cases (eq_true_of_ne_false blank) with rfl | rfl | rfl | rfl <;>
      exact absurd (digit _ List.mem_cons_self) (by decide)
  have noName := isNameStart_of_isAsciiDigit (digit c List.mem_cons_self)
  refine .ofPrimary (fun rest => unaryOperator_none (skipBlanks_cons visible _) noName
    (differs '!' rfl) (differs '-' rfl) (differs '+' rfl)) fun d tail ends => ?_
  have stops : isAsciiDigit d = false := by
    rcases endsOperand_cases ends with rfl | rfl | rfl | rfl | rfl | rfl | rfl <;> rfl
  have noFraction : fraction (d :: tail) = ([], d :: tail) := by
    have noPoint : d ≠ '.' := by
      rcases endsOperand_cases ends with rfl | rfl | rfl | rfl | rfl | rfl | rfl <;> decide
    simp [fraction, noPoint]
  have noExponent : exponent (d :: tail) = ([], d :: tail) := exponent_other fun e rest same => by
    obtain ⟨rfl, -⟩ := List.cons.inj same
    rcases endsOperand_cases ends with rfl | rfl | rfl | rfl | rfl | rfl | rfl <;> rfl
  have taken : (c :: others ++ d :: tail).takeWhile isAsciiDigit = c :: others := by
    rw [List.takeWhile_append_of_pos digit, List.takeWhile_cons_of_neg (by simp [stops]),
      List.append_nil]
  have left : (c :: others ++ d :: tail).dropWhile isAsciiDigit = d :: tail := by
    rw [List.dropWhile_append_of_pos digit, List.dropWhile_cons_of_neg (by simp [stops])]
  have start : skipBlanks (c :: others ++ d :: tail) = c :: others ++ d :: tail :=
    skipBlanks_cons visible _
  refine primary_number start (digit c List.mem_cons_self) ?_
  simp only [numberText, start, taken, left, noFraction, noExponent]
  simp

/-! ## Entries of objects -/

structure KeyReads (code : List Char) (key : Key) : Prop where
  read : ∀ rest, keyWith expression (code ++ ':' :: rest) = some (key, ':' :: rest)
  noListeners : ∀ rest, listenersEntry expression (code ++ ':' :: rest) = none

theorem KeyReads.ofName {name : List Char} (identifier : isIdentifier name = true)
    (noOn : String.ofList name ≠ "on") (noNative : String.ofList name ≠ "nativeOn") :
    KeyReads name (.fixed (String.ofList name)) := by
  have found := fun rest => anyName_written _ identifier (d := ':') rfl rest
  refine ⟨fun rest => ?_, fun rest => ?_⟩
  · obtain ⟨c, taken, start, -, -, split⟩ := anyName_eq_some (found rest)
    have differs := fun d other => ne_of_isNameStart (d := d) start other
    simp [keyWith, mark_none split "[" rfl (differs '[' rfl),
      textLiteral_none split (differs '\x22' rfl).symm (differs '\x27' rfl).symm,
      numberText_none split (isAsciiDigit_of_isNameStart start) (differs '.' rfl).symm, found]
  · simp [listenersEntry, found, noOn, noNative]

theorem keyWith_literal (nested : Reader Expr) (name rest : List Char) :
    keyWith nested (Literal.encodeChars name ++ rest) = some (.fixed (String.ofList name), rest) := by
  have start := skipBlanks_cons (c := '\x22') rfl (name.flatMap Literal.encodeChar ++ ['\x22'] ++ rest)
  have noBracket : mark? "[" (Literal.encodeChars name ++ rest) = none :=
    mark_none start _ rfl (by decide)
  simp [keyWith, noBracket, textLiteral_encodeChars]

theorem listenersEntry_literal (nested : Reader Expr) (name rest : List Char) :
    listenersEntry nested (Literal.encodeChars name ++ rest) = none := by
  have start := skipBlanks_cons (c := '\x22') rfl (name.flatMap Literal.encodeChar ++ ['\x22'] ++ rest)
  have noName : anyName (Literal.encodeChars name ++ rest) = none := anyName_none start rfl
  simp [listenersEntry, noName]

theorem entryWith_literal (nested : Reader Expr) (name rest : List Char) :
    entryWith nested (Literal.encodeChars name ++ rest) =
      ((mark? ":" rest).bind nested).map fun found => ((.fixed (String.ofList name), found.1), found.2) := by
  simp [entryWith, listenersEntry_literal, plainEntry, keyWith_literal]

theorem KeyReads.ofLiteral (name : List Char) :
    KeyReads (Literal.encodeChars name) (.fixed (String.ofList name)) :=
  ⟨fun rest => keyWith_literal expression name (':' :: rest),
    fun rest => listenersEntry_literal expression name (':' :: rest)⟩

theorem KeyReads.ofComputed {code : List Char} {result : Expr}
    (reads : Reads expression endsListener code result) :
    KeyReads ('[' :: code ++ [']']) (.computed result) := by
  refine ⟨fun rest => ?_, fun rest => ?_⟩
  · obtain ⟨blanks, blank, read⟩ := reads ']' (':' :: rest) rfl
    have source : '[' :: code ++ [']'] ++ ':' :: rest = '[' :: (code ++ ']' :: ':' :: rest) := by simp
    have opened := mark_self "[" '[' rfl rfl (code ++ ']' :: ':' :: rest)
    have closed : mark? "]" (blanks ++ ']' :: ':' :: rest) = some (':' :: rest) := by
      rw [mark_skip blank]
      exact mark_self _ ']' rfl rfl _
    rw [source]
    simp [keyWith, opened, read, closed]
  · simp [listenersEntry, anyName_none (skipBlanks_cons (c := '[') rfl _) rfl]

section Entries

variable {key value : List Char} {readKey : Key} (keyReads : KeyReads key readKey)

include keyReads

theorem KeyReads.entry (inner : Reads expression endsListener value result) :
    Reads (entryWith expression) endsListener (key ++ ':' :: value) (readKey, result) := by
  intro d tail ends
  obtain ⟨blanks, blank, valueRead⟩ := inner d tail ends
  have source : key ++ ':' :: value ++ d :: tail = key ++ ':' :: (value ++ d :: tail) := by simp
  have colon := mark_self ":" ':' rfl rfl (value ++ d :: tail)
  refine ⟨blanks, blank, ?_⟩
  rw [source]
  simp [entryWith, keyReads.noListeners, plainEntry, keyReads.read, colon, valueRead]

theorem KeyReads.listener {source : String}
    (inner : Reads listenerSource endsListener value source) :
    Reads (listenerEntry expression) endsListener (key ++ ':' :: value) (readKey, source) := by
  intro d tail ends
  obtain ⟨blanks, blank, valueRead⟩ := inner d tail ends
  have split : key ++ ':' :: value ++ d :: tail = key ++ ':' :: (value ++ d :: tail) := by simp
  have colon := mark_self ":" ':' rfl rfl (value ++ d :: tail)
  refine ⟨blanks, blank, ?_⟩
  rw [split]
  simp [listenerEntry, keyReads.read, colon, valueRead]

end Entries

theorem listenerEntry_shortens : Shortens (listenerEntry expression) := fun source _ _ found =>
  (listenerEntry_match (expression_paired source.length source.length)
    (samePairing_self ['\x7d'] source) (Nat.le_refl _) (Nat.le_refl _)).length_lt found

theorem listenerEntry_none (rest : List Char) :
    listenerEntry expression ('\x7d' :: rest) = none := by
  have start := skipBlanks_cons (c := '\x7d') rfl rest
  simp [listenerEntry, keyWith, mark_none start "[" rfl (by decide),
    textLiteral_none start (by decide) (by decide), numberText_none start rfl (by decide),
    anyName_none start rfl]

theorem listenersField_reads {name : List Char} (identifier : isIdentifier name = true)
    (listens : String.ofList name = "on" ∨ String.ofList name = "nativeOn")
    {codes : List (List Char)} {entries : List (Key × String)}
    (items : List.Forall₂ (Reads (listenerEntry expression) endsListener) codes entries) :
    Reads (entryWith expression) endsListener (name ++ ':' :: ('\x7b' :: commaList codes ++ ['\x7d']))
      (.fixed (String.ofList name), .listeners entries) := by
  intro d tail _
  have source : name ++ ':' :: ('\x7b' :: commaList codes ++ ['\x7d']) ++ d :: tail =
      name ++ ':' :: '\x7b' :: (commaList codes ++ '\x7d' :: d :: tail) := by simp
  have found := anyName_written _ identifier (d := ':') rfl
    ('\x7b' :: (commaList codes ++ '\x7d' :: d :: tail))
  have colon := mark_self ":" ':' rfl rfl
    ('\x7b' :: (commaList codes ++ '\x7d' :: d :: tail))
  have given := enclosed_reads curlyPair listenerEntry_shortens listenerEntry_none items (d :: tail)
  refine ⟨[], rfl, ?_⟩
  rw [source]
  simp [entryWith, listenersEntry, found, listens, colon, given]

end Templating.Expression.Grammar
