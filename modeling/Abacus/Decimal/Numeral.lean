/-!
# Numerals

A decimal numeral as it is written: a sign, the digits before the point, the digits
after it, and a power of ten.  Printing produces one, and the notations for data that
this program reads and writes have numerals of this shape.
-/

namespace Abacus.Decimal

/-- A decimal numeral. -/
structure Numeral where
  /-- Whether a minus sign stands in front. -/
  negative : Bool := false
  /-- The digits before the point. -/
  whole : List Char
  /-- The digits after the point; without any there is no point. -/
  fraction : List Char := []
  /-- The power of ten, as a sign and digits, if it is written. -/
  exponent : Option (Bool × List Char) := none
  deriving DecidableEq, Repr

/-- The characters of a numeral. -/
def Numeral.chars (n : Numeral) : List Char :=
  (if n.negative then ['-'] else []) ++ n.whole ++
    (if n.fraction.isEmpty then [] else '.' :: n.fraction) ++
    match n.exponent with
    | none => []
    | some (negative, digits) => 'e' :: (if negative then '-' else '+') :: digits

/-- The numeral of an integer. -/
def Numeral.ofInt (n : Int) : Numeral :=
  { negative := n < 0, whole := Nat.toDigits 10 n.natAbs }

end Abacus.Decimal
