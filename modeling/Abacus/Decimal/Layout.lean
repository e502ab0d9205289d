import Abacus.Decimal.Numeral
import Abacus.Decimal.Shortest

/-!
# Writing decimals

The significant digits of a number and the place of its point determine its text up
to a few conventions: from which size on an exponent is written, whether a whole
number keeps a zero after the point, and how a tie between two shortest decimals is
broken.  A `Layout` collects them.  Three formats print numbers here, and each is one
value of this type; this module holds the one used for results, the others stand
beside the formats they belong to.
-/

namespace Abacus.Decimal

/-- The conventions of a format for decimals. -/
structure Layout where
  /-- How a tie between two shortest decimals is broken. -/
  tie : Tie
  /-- Whether a number whose point stands at this place is written without an
  exponent.  The place counts digits to the left of the point, so that `0.05` has its
  point at `-1` and `12.5` at `2`. -/
  positional : Int → Bool
  /-- The digits after the point of a whole number. -/
  wholeFraction : List Char

/-- Significant digits, without trailing zeros, and the place of the point. -/
structure Digits where
  /-- The digits, most significant first. -/
  digits : List Char
  /-- How many of them, counted with the missing zeros, precede the point. -/
  point : Int
  deriving Repr, DecidableEq

/-- The digits of `c` steps of `10 ^ grid`. -/
def Digits.ofScaled (c : Nat) (grid : Int) : Digits :=
  let ds := Nat.toDigits 10 c
  { digits := (ds.reverse.dropWhile (· == '0')).reverse
    point := ds.length + grid }

/-- So many zeros. -/
def zeros (n : Int) : List Char := List.replicate n.toNat '0'

/-- The digits with the point among them, before them or after them. -/
def Digits.positional (d : Digits) (negative : Bool) (wholeFraction : List Char) : Numeral :=
  if d.point ≤ 0 then
    { negative, whole := ['0'], fraction := zeros (-d.point) ++ d.digits }
  else if (d.digits.length : Int) ≤ d.point then
    { negative, whole := d.digits ++ zeros (d.point - d.digits.length), fraction := wholeFraction }
  else
    { negative, whole := d.digits.take d.point.toNat, fraction := d.digits.drop d.point.toNat }

/-- One digit before the point, and the power of ten. -/
def Digits.scientific (d : Digits) (negative : Bool) : Numeral :=
  let power := d.point - 1
  { negative, whole := d.digits.take 1, fraction := d.digits.drop 1
    exponent := some (power < 0, Nat.toDigits 10 power.natAbs) }

/-- The numeral of a finite number. -/
def Layout.numeral (l : Layout) (x : Double) : Numeral :=
  let negative := x.isNegative
  let b := Binary.ofDouble x
  if b.mantissa = 0 then { negative, whole := ['0'], fraction := l.wholeFraction }
  else
    let (c, grid) := b.shortest l.tie
    let d := Digits.ofScaled c grid
    if l.positional d.point then d.positional negative l.wholeFraction
    else d.scientific negative

/-- The text of a finite number. -/
def Layout.render (l : Layout) (x : Double) : String :=
  String.ofList (l.numeral x).chars

/-- Results are written without an exponent, however long that gets, and whole
numbers look like integers. -/
def plainLayout : Layout :=
  { tie := .away, positional := fun _ => true, wholeFraction := [] }

/-- The text of a result, also of one that is not finite. -/
def plain (x : Double) : String :=
  if x.isFinite then plainLayout.render x
  else if x.isUndefined then "NaN"
  else if x.isNegative then "-inf"
  else "inf"

end Abacus.Decimal
