import Templating.Text.Blank
import Templating.Text.Search
/-!
# Lexical checks of expressions

Checks that need no grammar: brackets match, quotes are closed, and no keyword
stands where only a name can.
-/
set_option autoImplicit false

namespace Templating.Expression

open Templating.Text

def isQuote (c : Char) : Bool := c == '\x27' || c == '\x22' || c == '\x60'

inductive Imbalance where
  | openTemplate
  | openQuote
  | unexpected (bracket : Char)
  | unclosed
deriving DecidableEq, Repr

def Imbalance.message : Imbalance → String
  | .openTemplate => "Unterminated template literal"
  | .openQuote => "Invalid or unexpected token"
  | .unexpected bracket => "Unexpected token '" ++ String.singleton bracket ++ "'"
  | .unclosed => "Unexpected end of input"

def closerOf? (c : Char) : Option Char :=
  if c = '(' then some ')'
  else if c = '[' then some ']'
  else if c = '\x7b' then some '\x7d'
  else none

/-- The part of an expression that is being read: code, or a text with the
quote that ends it, where `escaped` says that a backslash has just been
passed. -/
inductive Region where
  | code
  | quoted (quote : Char) (escaped : Bool)
deriving DecidableEq, Repr

/-- The first imbalance, where `expected` holds the brackets still to close,
innermost first. -/
def imbalanceFrom (expected : List Char) : Region → List Char → Option Imbalance
  | .code, [] => if expected.isEmpty then none else some .unclosed
  | .quoted quote _, [] => some (if quote = '\x60' then .openTemplate else .openQuote)
  | .quoted quote true, _ :: rest => imbalanceFrom expected (.quoted quote false) rest
  | .quoted quote false, c :: rest =>
    if c = '\\' then imbalanceFrom expected (.quoted quote true) rest
    else if c = quote then imbalanceFrom expected .code rest
    else if c = '\n' ∧ quote ≠ '\x60' then some .openQuote
    else imbalanceFrom expected (.quoted quote false) rest
  | .code, c :: rest =>
    if isQuote c then imbalanceFrom expected (.quoted c false) rest
    else
      match closerOf? c with
      | some closer => imbalanceFrom (closer :: expected) .code rest
      | none =>
        if c = ')' ∨ c = ']' ∨ c = '\x7d' then
          match expected with
          | closer :: outer =>
            if closer = c then imbalanceFrom outer .code rest else some (.unexpected c)
          | [] => some (.unexpected c)
        else imbalanceFrom expected .code rest

def imbalance? (source : String) : Option Imbalance := imbalanceFrom [] .code source.toList

def withoutTexts : Region → List Char → List Char
  | .code, [] => []
  | .quoted _ _, [] => [' ']
  | .quoted quote true, _ :: rest => withoutTexts (.quoted quote false) rest
  | .quoted quote false, c :: rest =>
    if c = '\\' then withoutTexts (.quoted quote true) rest
    else if c = quote then ' ' :: withoutTexts .code rest
    else withoutTexts (.quoted quote false) rest
  | .code, c :: rest =>
    if isQuote c then withoutTexts (.quoted c false) rest else c :: withoutTexts .code rest

def isNameStart (c : Char) : Bool := isAsciiLetter c || c == '_' || c == '$'

def isNameChar (c : Char) : Bool := isAsciiWord c || c == '_' || c == '$'

/-- A name in an expression with the visible character before it and all that
follows it. -/
structure Word where
  before : Option Char
  name : List Char
  after : List Char

/-- The words of an expression.  `current` holds the characters of the word
being read, last first; `before` is the visible character before it. -/
def wordsFrom (before : Option Char) (current : List Char) : List Char → List Word
  | [] => if current.isEmpty then [] else [⟨before, current.reverse, []⟩]
  | c :: rest =>
    if current.isEmpty then
      if isNameStart c then wordsFrom before [c] rest
      else wordsFrom (if isBlank c then before else some c) [] rest
    else if isNameChar c then wordsFrom before (c :: current) rest
    else
      ⟨before, current.reverse, c :: rest⟩ ::
        wordsFrom (if isBlank c then current.head? else some c) [] rest

def words (source : List Char) : List Word := wordsFrom none [] source

def keywords : List String :=
  ["do", "if", "for", "let", "try", "var", "case", "else", "with", "break", "catch", "const",
    "throw", "while", "export", "import", "return", "switch", "default", "extends", "finally",
    "continue", "debugger"]

def unaryKeywords : List String := ["delete", "typeof", "void"]

/-- The word is a keyword and neither a property behind a point nor a key
before a colon. -/
def Word.isMisusedKeyword (word : Word) : Bool :=
  keywords.contains (String.ofList word.name) && word.before != some '.' &&
    !startsWith [':'] (trimStart word.after)

/-- The word is a unary operator written as if it were a function. -/
def Word.isUnaryCall (word : Word) : Bool :=
  unaryKeywords.contains (String.ofList word.name) && word.before != some '$' &&
    startsWith ['('] (trimStart word.after)

def firstWord? (accepts : Word → Bool) (source : String) : Option String :=
  ((words (withoutTexts .code source.toList)).find? accepts).map fun word => String.ofList word.name

def misusedKeyword? (source : String) : Option String := firstWord? Word.isMisusedKeyword source

def unaryCall? (source : String) : Option String := firstWord? Word.isUnaryCall source

end Templating.Expression
