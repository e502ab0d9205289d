/-!
# Operations on words that may fail

Integers are kept in signed words of 64 bits, whose own operations wrap around.  Each
operation here is the one on words together with a test whether it has: if so there is
no result.

Division on words rounds towards zero.  A quotient that is rounded down is one less where
that has rounded up, which it has if there is a remainder and the signs of the operands
differ; the remainder then goes with the divisor's sign.
-/

namespace Abacus

namespace Word

/-- The sum of two words. -/
def checkedAdd (x y : Int64) : Option Int64 :=
  if x.toBitVec.saddOverflow y.toBitVec then none else some (x + y)

/-- The difference of two words. -/
def checkedSub (x y : Int64) : Option Int64 :=
  if x.toBitVec.ssubOverflow y.toBitVec then none else some (x - y)

/-- The product of two words. -/
def checkedMul (x y : Int64) : Option Int64 :=
  if x.toBitVec.smulOverflow y.toBitVec then none else some (x * y)

/-- The opposite of a word, which the least one has not. -/
def checkedNeg (x : Int64) : Option Int64 :=
  if x = Int64.minValue then none else some (-x)

/-- The magnitude of a word. -/
def checkedAbs (x : Int64) : Option Int64 :=
  if x < 0 then checkedNeg x else some x

/-- The division of two words is undefined, or its quotient is no word. -/
def DivisionFails (x y : Int64) : Prop := y = 0 ∨ x = Int64.minValue ∧ y = -1

instance (x y : Int64) : Decidable (DivisionFails x y) := inferInstanceAs (Decidable (_ ∨ _))

/-- The quotient, rounded towards zero. -/
def checkedDiv (x y : Int64) : Option Int64 :=
  if DivisionFails x y then none else some (x / y)

/-- The remainder that goes with this quotient.  It is refused with the quotient, although it
would be zero for the least word and `-1`. -/
def checkedRem (x y : Int64) : Option Int64 :=
  if DivisionFails x y then none else some (x % y)

/-- The quotient, rounded down. -/
def floorQuotient? (x y : Int64) : Option Int64 := do
  let q ← checkedDiv x y
  let r ← checkedRem x y
  return if r ≠ 0 ∧ ¬ (x < 0 ↔ y < 0) then q - 1 else q

/-- The remainder with the sign of the divisor. -/
def floorRemainder? (x y : Int64) : Option Int64 := do
  let r ← checkedRem x y
  return if r ≠ 0 ∧ ¬ (r < 0 ↔ y < 0) then r + y else r

/-- What has been multiplied so far, and the base once more if the exponent is odd. -/
def powStep (acc base : Int64) (exponent : Nat) : Option Int64 :=
  if exponent % 2 = 1 then checkedMul acc base else some acc

/-- Squaring and multiplying, as long as there is something left of the exponent.  The square
that nothing would use is not formed. -/
def powLoop (acc base : Int64) (exponent : Nat) : Option Int64 :=
  if exponent ≤ 1 then powStep acc base exponent
  else do
    let product ← powStep acc base exponent
    let square ← checkedMul base base
    powLoop product square (exponent / 2)
termination_by exponent

/-- A power with an exponent of 32 bits. -/
def checkedPow (base : Int64) (exponent : UInt32) : Option Int64 := powLoop 1 base exponent.toNat

/-- The word as one of 32 bits without a sign. -/
def toUInt32? (y : Int64) : Option UInt32 :=
  if 0 ≤ y ∧ y ≤ 4294967295 then some y.toUInt64.toUInt32 else none

/-- A power whose exponent is not negative.  Where the exponent has more than 32 bits only
three bases have powers that are words. -/
def power? (x y : Int64) : Option Int64 :=
  match toUInt32? y with
  | some exponent => checkedPow x exponent
  | none =>
      if x = 0 ∨ x = 1 then some x
      else if x = -1 then some (if y % 2 = 0 then 1 else -1)
      else none

/-- The word shifted to the left by less than 64 places.  Whether bits have been lost is seen by
shifting back. -/
def shiftLeft? (x y : Int64) : Option Int64 :=
  let shifted := x <<< y
  if shifted >>> y ≠ x then none else some shifted

end Word

end Abacus
