import Abacus.Number
import Abacus.Number.Checked
import Abacus.Operation

/-!
# Arithmetic

Operations on integers are carried out on words, by those of `Abacus.Number.Checked`.  What
has no result there overflows; nothing wraps around.

## Where integers turn into reals

Two operations leave the integers although both operands are in them: a division that
does not come out even, and a power with a negative exponent.  They are then carried
out on reals, as is every operation that has a real operand.  The bitwise operations
have no meaning on reals and refuse them.

A real result has to be finite; infinities and undefined results are errors.
-/

namespace Abacus

/-- Why an expression has no value. -/
inductive EvalError where
  /-- The variable has not been assigned. -/
  | undefinedVariable (name : String)
  /-- The divisor is zero. -/
  | divisionByZero
  /-- No word is the result of the operation. -/
  | overflow (op : Operation)
  /-- The operation takes integers and was given a real. -/
  | integerRequired (op : Operation)
  /-- A word has no bit that far away. -/
  | shiftOutOfRange (amount : Int64)
  /-- The real result is infinite or undefined. -/
  | notFinite
  deriving DecidableEq, Repr

/-- What the user is told. -/
def EvalError.message : EvalError → String
  | .undefinedVariable name => s!"undefined variable '{name}'"
  | .divisionByZero => "division by zero"
  | .overflow op => s!"integer overflow in '{op.symbol}'"
  | .integerRequired op => s!"'{op.symbol}' requires integer operands"
  | .shiftOutOfRange amount => s!"shift amount {amount.toInt} is out of range"
  | .notFinite => "result is not a finite number"

namespace Number

/-- The answer to an operation on words, which overflows where it has no result. -/
def ofWord (op : Operation) : Option Int64 → Except EvalError Number
  | some w => .ok (.int w)
  | none => .error (.overflow op)

/-- The answer to an operation whose result over the reals is `x`. -/
def finite (x : Float) : Except EvalError Number :=
  if x.isFinite then .ok (.real (.ofFloat x)) else .error .notFinite

/-- An operation on two reals. -/
def applyReal (op : BinaryOp) (x y : Float) : Except EvalError Number :=
  match op with
  | .add => finite (x + y)
  | .sub => finite (x - y)
  | .mul => finite (x * y)
  | .div => if y == 0 then .error .divisionByZero else finite (x / y)
  | .floorDiv => if y == 0 then .error .divisionByZero else finite (x / y).floor
  | .mod => if y == 0 then .error .divisionByZero else finite (x - y * (x / y).floor)
  | .pow => finite (x.pow y)
  | .and | .or | .xor | .shiftLeft | .shiftRight => .error (.integerRequired (.binary op))

/-- An operation on two integers.

A division first forms the remainder, and is one on reals if there is any.  All operations
that divide name their own fault where the divisor is zero, and a shift is refused before
anything is shifted. -/
def applyInt (op : BinaryOp) (x y : Int64) : Except EvalError Number :=
  let reals := applyReal op (toReal (.int x)) (toReal (.int y))
  match op with
  | .add => ofWord (.binary op) (Word.checkedAdd x y)
  | .sub => ofWord (.binary op) (Word.checkedSub x y)
  | .mul => ofWord (.binary op) (Word.checkedMul x y)
  | .div =>
      if y = 0 then .error .divisionByZero
      else match Word.checkedRem x y with
        | none => .error (.overflow (.binary op))
        | some r => if r ≠ 0 then reals else ofWord (.binary op) (Word.checkedDiv x y)
  | .floorDiv =>
      if y = 0 then .error .divisionByZero else ofWord (.binary op) (Word.floorQuotient? x y)
  | .mod =>
      if y = 0 then .error .divisionByZero else ofWord (.binary op) (Word.floorRemainder? x y)
  | .pow => if y < 0 then reals else ofWord (.binary op) (Word.power? x y)
  | .and => .ok (.int (x &&& y))
  | .or => .ok (.int (x ||| y))
  | .xor => .ok (.int (x ^^^ y))
  | .shiftLeft =>
      if 0 ≤ y ∧ y < 64 then ofWord (.binary op) (Word.shiftLeft? x y)
      else .error (.shiftOutOfRange y)
  | .shiftRight =>
      if 0 ≤ y ∧ y < 64 then .ok (.int (x >>> y)) else .error (.shiftOutOfRange y)

/-- An operation on two values. -/
def apply (op : BinaryOp) : Number → Number → Except EvalError Number
  | .int x, .int y => applyInt op x y
  | a, b => applyReal op a.toReal b.toReal

/-- An operation on one value. -/
def applyUnary (a : Number) (op : UnaryOp) : Except EvalError Number :=
  match op, a with
  | .negate, .int x => ofWord (.unary op) (Word.checkedNeg x)
  | .negate, .real x => .ok (.real x.negate)
  | .complement, .int x => .ok (.int (~~~x))
  | .complement, .real _ => .error (.integerRequired (.unary op))
  | .absolute, .int x => ofWord (.unary op) (Word.checkedAbs x)
  | .absolute, .real x => .ok (.real x.abs)

end Number

end Abacus
