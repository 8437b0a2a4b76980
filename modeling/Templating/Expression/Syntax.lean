import Templating.Data.Value
/-!
# Expressions

The expressions of templates and of render source.
-/
set_option autoImplicit false

namespace Templating.Expression

open Templating.Data

inductive UnaryOperator where
  | not
  | negate
  | plus
  | typeOf
  | void
deriving DecidableEq, Repr

inductive BinaryOperator where
  | or
  | coalesce
  | and
  | strictEqual
  | strictUnequal
  | equal
  | unequal
  | less
  | lessEqual
  | greater
  | greaterEqual
  | add
  | subtract
  | multiply
  | divide
  | remainder
deriving DecidableEq, Repr

inductive Pattern where
  | name (name : String)
  | record (fields : List (String × Pattern))
  /-- Positions without a pattern bind nothing. -/
  | list (slots : List (Option Pattern))
deriving Inhabited

mutual

inductive Expr where
  | literal (value : Value)
  | this
  | name (name : String)
  | member (target : Expr) (property : String)
  | index (target key : Expr)
  | call (callee : Expr) (arguments : List Expr)
  | unary (operator : UnaryOperator) (operand : Expr)
  | binary (operator : BinaryOperator) (left right : Expr)
  | conditional (test whenTrue whenFalse : Expr)
  | list (items : List Expr)
  | record (entries : List (Key × Expr))
  /-- Listeners by event; each is kept as source. -/
  | listeners (entries : List (Key × String))
  | function (parameters : List Pattern) (body : Expr)

inductive Key where
  | fixed (name : String)
  | computed (expression : Expr)

end

instance : Inhabited Expr := ⟨.this⟩

end Templating.Expression
