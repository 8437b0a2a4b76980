import Templating.Expression.Syntax
/-!
# Operators

Binary operators on values, with the coercions that their operands undergo.
-/
set_option autoImplicit false

namespace Templating.Evaluation

open Templating.Data Templating.Expression

def strictEqual : Value → Value → Bool
  | .number left, .number right => left == right
  | left, right => left.equals right

/-- Equality with coercion: what is not there equals what is not there, and
texts, numbers and truth values of different kinds compare as numbers. -/
def looseEqual (left right : Value) : Bool :=
  if left.isNullish || right.isNullish then left.isNullish && right.isNullish
  else
    match left, right with
    | .number _, .string _ | .number _, .boolean _ | .string _, .number _ | .boolean _, .number _
    | .boolean _, .string _ | .string _, .boolean _ => left.toNumber == right.toNumber
    | _, _ => strictEqual left right

/-- Texts compare by code point, all else as numbers. -/
def compareWith (onTexts : String → String → Bool) (onNumbers : Float → Float → Bool) :
    Value → Value → Bool
  | .string left, .string right => onTexts left right
  | left, right => onNumbers left.toNumber right.toNumber

def isTextual : Value → Bool
  | .string _ | .list _ | .record _ => true
  | _ => false

def add (left right : Value) : Value :=
  if isTextual left || isTextual right then .string (left.asText ++ right.asText)
  else .number (left.toNumber + right.toNumber)

/-- The operators that evaluate both operands.  The others choose one of them
and have no result here. -/
def applyBinary (operator : BinaryOperator) (left right : Value) : Value :=
  match operator with
  | .add => add left right
  | .subtract => .number (left.toNumber - right.toNumber)
  | .multiply => .number (left.toNumber * right.toNumber)
  | .divide => .number (left.toNumber / right.toNumber)
  | .remainder => .number (Number.remainder left.toNumber right.toNumber)
  | .strictEqual => .boolean (strictEqual left right)
  | .strictUnequal => .boolean (!strictEqual left right)
  | .equal => .boolean (looseEqual left right)
  | .unequal => .boolean (!looseEqual left right)
  | .less => .boolean (compareWith (fun a b => a < b) (fun a b => a < b) left right)
  | .lessEqual => .boolean (compareWith (fun a b => !(b < a)) (fun a b => a ≤ b) left right)
  | .greater => .boolean (compareWith (fun a b => b < a) (fun a b => b < a) left right)
  | .greaterEqual => .boolean (compareWith (fun a b => !(a < b)) (fun a b => b ≤ a) left right)
  | .or | .coalesce | .and => .undefined

end Templating.Evaluation
