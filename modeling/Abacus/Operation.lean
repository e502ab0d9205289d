/-!
# Operations

The operations that an expression can apply to values, with the symbols they are
written with.
-/

namespace Abacus

/-- Operations on one value. -/
inductive UnaryOp where
  | negate
  | complement
  | absolute
  deriving DecidableEq, Repr

/-- Operations on two values. -/
inductive BinaryOp where
  | add
  | sub
  | mul
  | div
  | floorDiv
  | mod
  | pow
  | and
  | or
  | xor
  | shiftLeft
  | shiftRight
  deriving DecidableEq, Repr

/-- An operation of either kind. -/
inductive Operation where
  | unary (op : UnaryOp)
  | binary (op : BinaryOp)
  deriving DecidableEq, Repr

/-- How the operation is written. -/
def UnaryOp.symbol : UnaryOp → String
  | .negate => "-"
  | .complement => "~"
  | .absolute => "abs"

/-- How the operation is written. -/
def BinaryOp.symbol : BinaryOp → String
  | .add => "+"
  | .sub => "-"
  | .mul => "*"
  | .div => "/"
  | .floorDiv => "//"
  | .mod => "%"
  | .pow => "**"
  | .and => "&"
  | .or => "|"
  | .xor => "^"
  | .shiftLeft => "<<"
  | .shiftRight => ">>"

/-- How the operation is written. -/
def Operation.symbol : Operation → String
  | .unary op => op.symbol
  | .binary op => op.symbol

/-- All operations on two values. -/
def BinaryOp.all : List BinaryOp :=
  [.add, .sub, .mul, .div, .floorDiv, .mod, .pow, .and, .or, .xor, .shiftLeft, .shiftRight]

end Abacus
