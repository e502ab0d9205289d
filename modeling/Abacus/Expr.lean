import Abacus.Dict
import Abacus.Number.Arithmetic

/-!
# Expressions

An expression is a tree of operations over literals and variables.  Parentheses and
the sign `+` only guide the reader and leave nothing in the tree.

`eval` computes the value from the leaves up, the left operand before the right one,
so the first error in reading order among the operands is the one reported.
-/

namespace Abacus

/-- Expressions. -/
inductive Expr where
  | number (value : Number)
  | variable (name : String)
  | unary (op : UnaryOp) (operand : Expr)
  | binary (op : BinaryOp) (left right : Expr)
  deriving DecidableEq

namespace Expr

instance : Inhabited Expr := ⟨.number default⟩

/-- The value of an expression, given the values of the variables. -/
def eval (bindings : Dict Number) : Expr → Except EvalError Number
  | .number value => .ok value
  | .variable name =>
      match bindings.get? name with
      | some value => .ok value
      | none => .error (.undefinedVariable name)
  | .unary op operand =>
      match eval bindings operand with
      | .ok a => a.applyUnary op
      | .error e => .error e
  | .binary op left right =>
      match eval bindings left with
      | .ok a =>
          match eval bindings right with
          | .ok b => Number.apply op a b
          | .error e => .error e
      | .error e => .error e

/-- Whether a variable occurs in an expression. -/
def mentions (name : String) : Expr → Bool
  | .number _ => false
  | .variable n => n == name
  | .unary _ operand => mentions name operand
  | .binary _ left right => mentions name left || mentions name right

end Expr

end Abacus
