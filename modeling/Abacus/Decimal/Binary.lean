import Abacus.Double

/-!
# What a double stands for

A finite double other than zero is a whole number of units, the unit being a power
of two: `mantissa * 2 ^ exponent`, up to sign.  To print it one also has to know how
far away its neighbours are.  They are one unit above and one unit below, except
that below the least mantissa of a binade the doubles lie twice as dense, so there
the lower neighbour is half a unit away.
-/

namespace Abacus.Decimal

/-- The magnitude of a finite double other than zero. -/
structure Binary where
  /-- The number of units. -/
  mantissa : Nat
  /-- The unit is two to this power. -/
  exponent : Int
  /-- Whether the next smaller double is only half a unit away. -/
  closeBelow : Bool
  deriving Repr, DecidableEq

/-- The magnitude written by the two lower fields.  An exponent field of zero marks
the subnormal numbers, which lack the leading bit and share the least unit. -/
def Binary.ofDouble (x : Double) : Binary :=
  let fraction := x.fractionField
  let field := x.exponentField
  if field = 0 then
    { mantissa := fraction, exponent := -1074, closeBelow := false }
  else
    { mantissa := Double.leadingBit + fraction
      exponent := (field : Int) - 1075
      closeBelow := fraction == 0 && 1 < field }

/-- One is `2 ^ 52` units of `2 ^ -52`. -/
example : Binary.ofDouble ⟨0x3ff0000000000000⟩ = ⟨Double.leadingBit, -52, true⟩ := by decide

/-- The least positive double is one least unit. -/
example : Binary.ofDouble ⟨1⟩ = ⟨1, -1074, false⟩ := by decide

end Abacus.Decimal
