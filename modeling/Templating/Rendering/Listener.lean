import Templating.Data.Dictionary
import Templating.Expression.Lexical
import Templating.Template.Element
import Templating.Text.Numeral
/-!
# Source of listeners

The value of a listener is a path to a method, a function, or statements; all
but the first two are wrapped in a function.  Modifiers become guards before
the body.
-/
set_option autoImplicit false

namespace Templating.Rendering

open Templating.Text Templating.Template Templating.Expression

/-- A key between brackets: a text without brackets, digits, or a name. -/
def isPathKey (key : List Char) : Bool :=
  let isQuoted (quote : Char) : Bool :=
    key.head? == some quote && key.getLast? == some quote && 2 ≤ key.length
  isQuoted '\x27' || isQuoted '\x22' || (!key.isEmpty && key.all isAsciiDigit) ||
    (key.head?.any isNameStart && key.all isNameChar)

/-- The rest of a path.  Between brackets `key` holds the characters of the key
that is being read, last first. -/
def isPathRest : Option (List Char) → List Char → Bool
  | none, [] => true
  | some key, [] => isPathKey key.reverse
  | some key, c :: rest =>
    if c = ']' then isPathKey key.reverse && isPathRest none rest
    else isPathRest (some (c :: key)) rest
  | none, '.' :: c :: rest => isNameStart c && isPathRest none rest
  | none, c :: rest =>
    if isNameChar c then isPathRest none rest
    else if c = '[' then isPathRest (some []) rest
    else false

/-- `a`, `a.b`, `a['b']`, `a[0]` and `a[b]`. -/
def isPath : List Char → Bool
  | [] => false
  | c :: rest => isNameStart c && isPathRest none rest

/-- The part before the arrow is a name, or a list in one pair of parentheses. -/
def isArrowHead (head : List Char) : Bool :=
  (head.head? == some '(' && head.getLast? == some ')' &&
      !(head.drop 1).dropLast.contains ')') ||
    (!head.isEmpty && head.all isNameChar)

def isFunction (source : List Char) : Bool :=
  match dropLeading? ['f', 'u', 'n', 'c', 't', 'i', 'o', 'n'] source with
  | some rest => startsWith ['('] (trimStart ((trimStart rest).dropWhile isNameChar))
  | none =>
    match breakAt? ['=', '>'] source with
    | some (head, _) => isArrowHead (trim head)
    | none => false

/-- A path with arguments, and perhaps semicolons behind them. -/
def isInvocation (source : List Char) : Bool :=
  let call := (source.reverse.dropWhile (· == ';')).reverse
  let arguments := (call.reverse.takeWhile (· ≠ '(')).reverse
  call.contains '(' && call.getLast? == some ')' &&
    isPath (call.take (call.length - arguments.length - 1)) && !arguments.dropLast.contains ')'

def guardCode (condition : String) : String := "if(" ++ condition ++ ")return null;"

def modifierCode? (modifier : String) : Option String :=
  match modifier with
  | "stop" => some "$event.stopPropagation();"
  | "prevent" => some "$event.preventDefault();"
  | "self" => some (guardCode "$event.target !== $event.currentTarget")
  | "ctrl" => some (guardCode "!$event.ctrlKey")
  | "shift" => some (guardCode "!$event.shiftKey")
  | "alt" => some (guardCode "!$event.altKey")
  | "meta" => some (guardCode "!$event.metaKey")
  | "left" => some (guardCode "'button' in $event && $event.button !== 0")
  | "middle" => some (guardCode "'button' in $event && $event.button !== 1")
  | "right" => some (guardCode "'button' in $event && $event.button !== 2")
  | _ => none

def keyCodes? (key : String) : Option (String × String) :=
  match key with
  | "esc" => some ("27", "[\"Esc\",\"Escape\"]")
  | "tab" => some ("9", "\"Tab\"")
  | "enter" => some ("13", "\"Enter\"")
  | "space" => some ("32", "[\" \",\"Spacebar\"]")
  | "up" => some ("38", "[\"Up\",\"ArrowUp\"]")
  | "left" => some ("37", "[\"Left\",\"ArrowLeft\"]")
  | "right" => some ("39", "[\"Right\",\"ArrowRight\"]")
  | "down" => some ("40", "[\"Down\",\"ArrowDown\"]")
  | "delete" => some ("[8,46]", "[\"Backspace\",\"Delete\",\"Del\"]")
  | _ => none

def keyCheck (key : String) : String :=
  match readWord? key.toList with
  | some code => "$event.keyCode!==" ++ toString code
  | none =>
    let (codes, names) := (keyCodes? key).getD ("undefined", "undefined")
    "_k($event.keyCode," ++ Literal.encode key ++ "," ++ codes ++ ",$event.key," ++ names ++ ")"

def keyFilter (keys : List String) : String :=
  if keys.isEmpty then ""
  else "if(!$event.type.indexOf('key')&&" ++ join "&&" (keys.map keyCheck) ++ ")return null;"

/-- System keys that `exact` forbids unless they are asked for. -/
def exactGuard (modifiers : List String) : String :=
  let unset := ["ctrl", "shift", "alt", "meta"].filter fun key => !modifiers.contains key
  if unset.isEmpty then ""
  else guardCode (join "||" (unset.map fun key => "$event." ++ key ++ "Key"))

def modifierGuard (modifiers : List String) (modifier : String) : String :=
  match modifierCode? modifier with
  | some code => code
  | none => if modifier == "exact" then exactGuard modifiers else ""

def isKeyModifier (modifier : String) : Bool :=
  match modifierCode? modifier with
  | some _ => (keyCodes? modifier).isSome
  | none => modifier != "exact"

/-- Guards before the body; the filter of keys comes first. -/
def guards (modifiers : List String) : String :=
  keyFilter (modifiers.filter isKeyModifier) ++
    String.join (modifiers.map (modifierGuard modifiers))

def listenerCode (listener : Listener) : String :=
  let value := trim listener.source.toList
  let source := String.ofList value
  if value.isEmpty then "function()\x7b\x7d"
  else if listener.modifiers.isEmpty then
    if isPath value || isFunction value then source
    else
      "function($event)\x7b" ++ (if isInvocation value then "return " else "") ++ source ++ "\x7d"
  else
    let body :=
      if isPath value then "return " ++ source ++ ".apply(null, arguments)"
      else if isFunction value then "return (" ++ source ++ ").apply(null, arguments)"
      else if isInvocation value then "return " ++ source
      else source
    "function($event)\x7b" ++ guards listener.modifiers ++ body ++ "\x7d"

/-- The key of an entry: an expression in brackets or a literal. -/
def keyCode (name : String) (isExpression : Bool) : String :=
  if isExpression then "[" ++ name ++ "]" else Literal.encode name

structure ListenerGroup where
  event : String
  hasNameExpression : Bool
  codes : List String

/-- Adds a listener to the group of its event, or a group behind the others. -/
def addToGroups (listener : Listener) : List ListenerGroup → List ListenerGroup
  | [] => [⟨listener.event, listener.hasNameExpression, [listenerCode listener]⟩]
  | group :: rest =>
    if group.event = listener.event ∧ group.hasNameExpression = listener.hasNameExpression then
      { group with codes := group.codes ++ [listenerCode listener] } :: rest
    else group :: addToGroups listener rest

def ListenerGroup.code (group : ListenerGroup) : String :=
  keyCode group.event group.hasNameExpression ++ ":" ++
    match group.codes with
    | [code] => code
    | codes => "[" ++ join "," codes ++ "]"

/-- The object of all listeners, grouped by event in the order of their first
occurrence. -/
def listenersCode (listeners : List Listener) : String :=
  let groups := listeners.foldl (fun groups listener => addToGroups listener groups) []
  "\x7b" ++ join "," (groups.map ListenerGroup.code) ++ "\x7d"

end Templating.Rendering
