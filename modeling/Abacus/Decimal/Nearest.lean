import Abacus.Decimal.Shortest

/-!
# The nearest double

A decimal with a written exponent can be far outside the range of doubles, and its
power of ten too large to be formed.  `nearest` decides such cases by counting digits
and forms the power only where the result can be a double other than zero.
-/

namespace Abacus.Decimal

/-- The double nearest to `n` times ten to the power `e`, which is infinite for a number
beyond the range of doubles. -/
def nearest (n : Nat) (e : Int) : Float :=
  let above := (digitCount n : Int) + e
  if n = 0 ∨ above < -330 then 0
  else if 310 < above then Float.ofScientific 1 false 400
  else Float.ofScientific n (e < 0) e.natAbs

end Abacus.Decimal
