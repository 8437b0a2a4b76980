import Templating.Expression.Lexical
import Templating.Expression.Syntax
import Templating.Text.Literal
/-!
# The grammar of expressions

Readers take the characters left to read and give a result with what they
leave, or nothing.  Each skips blanks before its token, takes the first
alternative that fits and never goes back on it.

An expression inside another starts behind a bracket or a mark, so the depth of
nesting is below the number of characters.  `expression` is tied by that bound:
the readers `…With` take the reader for nested expressions as an argument.
-/
set_option autoImplicit false

namespace Templating.Expression

open Templating.Text Templating.Data

abbrev Reader (α : Type) := List Char → Option (α × List Char)

namespace Grammar

variable {α : Type}

def isSeparatingBlank (c : Char) : Bool := c == ' ' || c == '\t' || c == '\r' || c == '\n'

def skipBlanks (source : List Char) : List Char := source.dropWhile isSeparatingBlank

/-- What follows a mark. -/
def mark? (mark : String) (source : List Char) : Option (List Char) :=
  dropLeading? mark.toList (skipBlanks source)

/-- The name that starts here, keyword or not. -/
def anyName : Reader String := fun source =>
  match skipBlanks source with
  | [] => none
  | c :: rest =>
    if isNameStart c then
      some (String.ofList (c :: rest.takeWhile isNameChar), rest.dropWhile isNameChar)
    else none

def word? (word : String) (source : List Char) : Option (List Char) :=
  match anyName source with
  | some (name, rest) => if name == word then some rest else none
  | none => none

def reserved : List String :=
  ["arguments", "await", "break", "case", "catch", "class", "const", "continue", "debugger",
    "default", "delete", "do", "else", "export", "extends", "false", "finally", "for", "function",
    "if", "import", "let", "new", "null", "return", "super", "switch", "this", "throw", "true",
    "try", "typeof", "undefined", "var", "void", "while", "with", "yield"]

def variableName : Reader String := fun source =>
  match anyName source with
  | some (name, rest) => if reserved.contains name then none else some (name, rest)
  | none => none

def textInside (quote : Char) : List Char → Option (List Char × List Char)
  | [] => none
  | '\\' :: [] => none
  | '\\' :: c :: rest =>
    (textInside quote rest).map fun found => ('\\' :: c :: found.1, found.2)
  | c :: rest =>
    if c = quote then some ([], rest)
    else (textInside quote rest).map fun found => (c :: found.1, found.2)

def textLiteral : Reader String := fun source =>
  match skipBlanks source with
  | [] => none
  | c :: rest =>
    if c = '\x22' ∨ c = '\x27' then
      (textInside c rest).map fun found => (Literal.decode found.1, found.2)
    else none

def fraction (source : List Char) : List Char × List Char :=
  match source with
  | '.' :: rest =>
    let digits := rest.takeWhile isAsciiDigit
    if digits.isEmpty then ([], source) else ('.' :: digits, rest.dropWhile isAsciiDigit)
  | _ => ([], source)

def exponent (source : List Char) : List Char × List Char :=
  match source with
  | e :: rest =>
    if e = 'e' ∨ e = 'E' then
      let sign := (rest.take 1).filter fun c => c == '+' || c == '-'
      let digits := (rest.drop sign.length).takeWhile isAsciiDigit
      if digits.isEmpty then ([], source)
      else (e :: sign ++ digits, rest.drop (sign.length + digits.length))
    else ([], source)
  | [] => ([], source)

def numberText : Reader (List Char) := fun source =>
  let start := skipBlanks source
  let whole := start.takeWhile isAsciiDigit
  let (part, afterPart) := fraction (start.dropWhile isAsciiDigit)
  if whole.isEmpty && part.isEmpty then none
  else
    let (scale, rest) := exponent afterPart
    some (whole ++ part ++ scale, rest)

/-- `item` as often as it fits, with the number of rounds bounded by `fuel`. -/
def manyFrom (item : Reader α) : Nat → List Char → List α × List Char
  | 0, source => ([], source)
  | fuel + 1, source =>
    match item source with
    | none => ([], source)
    | some (first, rest) =>
      let (others, behind) := manyFrom item fuel rest
      (first :: others, behind)

/-- `item` as often as it fits.  An item takes at least one character. -/
def many (item : Reader α) (source : List Char) : List α × List Char :=
  manyFrom item source.length source

def commaThen (item : Reader α) : Reader α := fun source => (mark? "," source).bind item

def separated (item : Reader α) (source : List Char) : List α × List Char :=
  match item source with
  | none => ([], source)
  | some (first, rest) =>
    let (others, behind) := many (commaThen item) rest
    (first :: others, behind)

def enclosed (opening closing : String) (item : Reader α) : Reader (List α) := fun source =>
  match mark? opening source with
  | none => none
  | some inside =>
    let (items, behind) := separated item inside
    (mark? closing behind).map fun rest => (items, rest)

/-- As `enclosed`, with a comma allowed before the closing mark. -/
def enclosedWithComma (opening closing : String) (item : Reader α) : Reader (List α) :=
  fun source =>
    match mark? opening source with
    | none => none
    | some inside =>
      let (items, behind) := separated item inside
      (mark? closing ((mark? "," behind).getD behind)).map fun rest => (items, rest)

/-! ## Patterns -/

def patternField (nested : Reader Pattern) : Reader (String × Pattern) := fun source =>
  match anyName source with
  | none => none
  | some (name, rest) =>
    match (mark? ":" rest).bind nested with
    | some (target, behind) => some ((name, target), behind)
    | none => some ((name, .name name), rest)

def patternSlot (nested : Reader Pattern) : Reader (Option Pattern) := fun source =>
  match nested source with
  | some (target, rest) => some (some target, rest)
  | none => some (none, source)

def patternWith (nested : Reader Pattern) : Reader Pattern := fun source =>
  (((variableName source).map fun (name, rest) => (Pattern.name name, rest)).orElse fun _ =>
    (enclosedWithComma "\x7b" "\x7d" (patternField nested) source).map fun (fields, rest) =>
      (Pattern.record fields, rest)).orElse fun _ =>
    (enclosed "[" "]" (patternSlot nested) source).map fun (slots, rest) =>
      (Pattern.list slots, rest)

def patternIn : Nat → Reader Pattern
  | 0 => fun _ => none
  | depth + 1 => patternWith (patternIn depth)

/-- A pattern; each nested one stands behind a mark. -/
def pattern : Reader Pattern := fun source => patternIn (source.length + 1) source

/-! ## Source of listeners -/

def afterText? (quote : Char) : List Char → Option (List Char)
  | [] => none
  | '\\' :: _ :: rest => afterText? quote rest
  | c :: rest => if c = quote then some rest else afterText? quote rest

def endsNested (c : Char) : Bool := c == ')' || c == ']' || c == '\x7d'

def endsListener (c : Char) : Bool := c == ',' || endsNested c

/-- What is left behind the longest run of pieces.  A piece is a text, a
bracketed run of pieces, or one character at which the run does not end; a
quote or bracket that is not closed is such a character. -/
def afterPieces (ends : Char → Bool) : Nat → List Char → List Char
  | 0, source => source
  | _ + 1, [] => []
  | fuel + 1, c :: rest =>
    let group? :=
      if isQuote c then afterText? c rest
      else
        match closerOf? c with
        | some closer =>
          match afterPieces endsNested fuel rest with
          | d :: behind => if d = closer then some behind else none
          | [] => none
        | none => none
    match group? with
    | some behind => afterPieces ends fuel behind
    | none => if ends c then c :: rest else afterPieces ends fuel rest

/-- The source of a listener, up to the comma or bracket that ends it. -/
def listenerSource : Reader String := fun source =>
  let start := skipBlanks source
  let rest := afterPieces endsListener start.length start
  let taken := start.take (start.length - rest.length)
  if taken.isEmpty then none else some (String.ofList (trim taken), rest)

/-! ## Expressions -/

def keyWith (nested : Reader Expr) : Reader Key := fun source =>
  let computed : Option (Key × List Char) :=
    match (mark? "[" source).bind nested with
    | some (expression, rest) => (mark? "]" rest).map fun behind => (.computed expression, behind)
    | none => none
  ((computed.orElse fun _ =>
    (textLiteral source).map fun (name, rest) => (.fixed name, rest)).orElse fun _ =>
    (numberText source).map fun (digits, rest) => (.fixed (String.ofList digits), rest)).orElse
    fun _ => (anyName source).map fun (name, rest) => (.fixed name, rest)

def listenerEntry (nested : Reader Expr) : Reader (Key × String) := fun source =>
  match keyWith nested source with
  | none => none
  | some (key, rest) =>
    ((mark? ":" rest).bind listenerSource).map fun (text, behind) => ((key, text), behind)

def listenersEntry (nested : Reader Expr) : Reader (Key × Expr) := fun source =>
  match anyName source with
  | none => none
  | some (name, rest) =>
    if name == "on" || name == "nativeOn" then
      ((mark? ":" rest).bind (enclosed "\x7b" "\x7d" (listenerEntry nested))).map
        fun (entries, behind) => ((.fixed name, .listeners entries), behind)
    else none

def plainEntry (nested : Reader Expr) : Reader (Key × Expr) := fun source =>
  match keyWith nested source with
  | none => none
  | some (key, rest) =>
    ((mark? ":" rest).bind nested).map fun (value, behind) => ((key, value), behind)

def entryWith (nested : Reader Expr) : Reader (Key × Expr) := fun source =>
  (listenersEntry nested source).orElse fun _ => plainEntry nested source

def function (nested : Reader Expr) : Reader Expr := fun source => do
  let afterWord ← word? "function" source
  let (parameters, afterParameters) ← enclosed "(" ")" pattern afterWord
  let inside ← mark? "\x7b" afterParameters
  let afterReturn ← mark? "return" inside
  let (body, afterBody) ← nested afterReturn
  let rest ← mark? "\x7d" ((mark? ";" afterBody).getD afterBody)
  return (.function parameters body, rest)

def wordLiteral : Reader Expr := fun source =>
  match anyName source with
  | none => none
  | some (name, rest) =>
    if name == "true" then some (.literal (.boolean true), rest)
    else if name == "false" then some (.literal (.boolean false), rest)
    else if name == "null" then some (.literal .null, rest)
    else if name == "undefined" then some (.literal .undefined, rest)
    else if name == "this" then some (.this, rest)
    else none

def parenthesized (nested : Reader Expr) : Reader Expr := fun source => do
  let inside ← mark? "(" source
  let (inner, afterInner) ← nested inside
  let rest ← mark? ")" afterInner
  return (inner, rest)

def numberLiteral : Reader Expr := fun source =>
  (numberText source).map fun (digits, rest) =>
    (.literal (.number ((Number.read? digits).getD Number.notANumber)), rest)

def primary (nested : Reader Expr) : Reader Expr := fun source =>
  (function nested source).orElse fun _ =>
  ((enclosedWithComma "\x7b" "\x7d" (entryWith nested) source).map fun (entries, rest) =>
    (Expr.record entries, rest)).orElse fun _ =>
  ((enclosed "[" "]" nested source).map fun (items, rest) => (Expr.list items, rest)).orElse
    fun _ =>
  ((textLiteral source).map fun (content, rest) =>
    (Expr.literal (.string content), rest)).orElse fun _ =>
  (numberLiteral source).orElse fun _ =>
  (wordLiteral source).orElse fun _ =>
  ((variableName source).map fun (name, rest) => (Expr.name name, rest)).orElse fun _ =>
  parenthesized nested source

inductive Access where
  | member (property : String)
  | index (key : Expr)
  | call (arguments : List Expr)

def Access.apply (target : Expr) : Access → Expr
  | .member property => .member target property
  | .index key => .index target key
  | .call arguments => .call target arguments

def access (nested : Reader Expr) : Reader Access := fun source =>
  ((((mark? "." source).bind anyName).map fun (name, rest) => (Access.member name, rest)).orElse
    fun _ => do
      let inside ← mark? "[" source
      let (key, afterKey) ← nested inside
      let rest ← mark? "]" afterKey
      return (.index key, rest)).orElse
    fun _ => (enclosed "(" ")" nested source).map fun (arguments, rest) =>
      (.call arguments, rest)

def operand (nested : Reader Expr) : Reader Expr := fun source =>
  match primary nested source with
  | none => none
  | some (first, rest) =>
    let (accesses, behind) := many (access nested) rest
    some (accesses.foldl Access.apply first, behind)

def unaryOperator : Reader UnaryOperator := fun source =>
  match skipBlanks source with
  | '!' :: rest => some (.not, rest)
  | '-' :: rest => some (.negate, rest)
  | '+' :: rest => some (.plus, rest)
  | start =>
    ((word? "typeof" start).map fun rest => (.typeOf, rest)).orElse fun _ =>
      (word? "void" start).map fun rest => (.void, rest)

def unary (nested : Reader Expr) : Reader Expr := fun source =>
  let (operators, rest) := many unaryOperator source
  (operand nested rest).map fun (inner, behind) => (operators.foldr Expr.unary inner, behind)

/-- The binary operators from the loosest level to the tightest.  On one level
a longer mark stands before its own beginning. -/
def operatorLevels : List (List (String × BinaryOperator)) :=
  [[("||", .or), ("??", .coalesce)],
    [("&&", .and)],
    [("===", .strictEqual), ("!==", .strictUnequal), ("==", .equal), ("!=", .unequal)],
    [("<=", .lessEqual), (">=", .greaterEqual), ("<", .less), (">", .greater)],
    [("+", .add), ("-", .subtract)],
    [("*", .multiply), ("/", .divide), ("%", .remainder)]]

def binaryOperator (level : List (String × BinaryOperator)) : Reader BinaryOperator :=
  fun source => level.findSome? fun entry => (mark? entry.1 source).map fun rest => (entry.2, rest)

def continuation (level : List (String × BinaryOperator)) (tighter : Reader Expr) :
    Reader (BinaryOperator × Expr) := fun source =>
  match binaryOperator level source with
  | none => none
  | some (operator, rest) =>
    (tighter rest).map fun (right, behind) => ((operator, right), behind)

/-- Operands of a tighter level, grouped from the left. -/
def chain (level : List (String × BinaryOperator)) (tighter : Reader Expr) : Reader Expr :=
  fun source =>
    match tighter source with
    | none => none
    | some (first, rest) =>
      let (others, behind) := many (continuation level tighter) rest
      some (others.foldl (fun left next => .binary next.1 left next.2) first, behind)

def binary (nested : Reader Expr) : List (List (String × BinaryOperator)) → Reader Expr
  | [] => unary nested
  | level :: tighter => chain level (binary nested tighter)

def outcomes (nested : Reader Expr) : Reader (Expr × Expr) := fun source => do
  let afterTest ← mark? "?" source
  let (whenTrue, afterTrue) ← nested afterTest
  let afterColon ← mark? ":" afterTrue
  let (whenFalse, rest) ← nested afterColon
  return ((whenTrue, whenFalse), rest)

def expressionWith (nested : Reader Expr) : Reader Expr := fun source =>
  match binary nested operatorLevels source with
  | none => none
  | some (test, rest) =>
    match outcomes nested rest with
    | some ((whenTrue, whenFalse), behind) =>
      some (.conditional test whenTrue whenFalse, behind)
    | none => some (test, rest)

def expressionIn : Nat → Reader Expr
  | 0 => fun _ => none
  | depth + 1 => expressionWith (expressionIn depth)

def expression : Reader Expr := fun source => expressionIn (source.length + 1) source

/-- The result of a reader that leaves nothing but blanks. -/
def whole? (reader : Reader α) (source : String) : Option α :=
  match reader source.toList with
  | some (result, rest) => if (skipBlanks rest).isEmpty then some result else none
  | none => none

/-- Render source: one expression inside its wrapping. -/
def program : Reader Expr := fun source => do
  let afterWith ← mark? "with" source
  let afterOpen ← mark? "(" afterWith
  let afterThis ← mark? "this" afterOpen
  let afterClose ← mark? ")" afterThis
  let inside ← mark? "\x7b" afterClose
  let afterReturn ← mark? "return" inside
  let (body, afterBody) ← expression afterReturn
  let rest ← mark? "\x7d" ((mark? ";" afterBody).getD afterBody)
  return (body, rest)

end Grammar

def parseExpression? (source : String) : Option Expr := Grammar.whole? Grammar.expression source

def parsePattern? (source : String) : Option Pattern := Grammar.whole? Grammar.pattern source

def parseProgram? (source : String) : Option Expr := Grammar.whole? Grammar.program source

end Templating.Expression
