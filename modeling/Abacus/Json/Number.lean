import Abacus.Number
import Abacus.Decimal.Layout

/-!
# Numbers in JSON

An integer is written as its digits.  A real is always written with a point or an
exponent, which is how the two are told apart when they are read back: `3` is an
integer and `3.0` is a real.

Reals are written with the fewest digits that identify them.  From `10 ^ 16` on and
below `10 ^ -5` an exponent is used.

## Reading

A number without point and exponent is an integer if it is one of the calculator's
integers, except that `-0` is the real negative zero.  Anything else is a real.

A real is read in two steps.  As many digits as fit into an unsigned word of 64 bits
make up the significand; those left over only shift it.  The significand is rounded
to a double and then multiplied or divided by a power of ten, which rounds again.  The
result is near the decimal but need not be the nearest double.  A number beyond the
range of doubles is an error, one too small for it is zero.
-/

namespace Abacus.Json

/-- How reals are written in JSON. -/
def realLayout : Decimal.Layout :=
  { tie := .toEven
    positional := fun point => -5 < point && point ≤ 16
    wholeFraction := ['0'] }

/-- The numeral of a number, or nothing for a real that is not finite. -/
def numeralOf? : Number → Option Decimal.Numeral
  | .int n => some (.ofInt n.toInt)
  | .real x => if x.isFinite then some (realLayout.numeral x) else none

/-- The digits of a decimal that fit into a significand after what has been read so
far, and the number of digits left over. -/
def takeDigits (significand : Nat) : List Char → Nat × Nat
  | [] => (significand, 0)
  | d :: ds =>
      let next := significand * 10 + (d.toNat - '0'.toNat)
      if next < 0x10000000000000000 then takeDigits next ds else (significand, (d :: ds).length)

/-- The value of a run of decimal digits. -/
def digitsValue (ds : List Char) : Nat :=
  ds.foldl (fun n d => n * 10 + (d.toNat - '0'.toNat)) 0

/-- `x` times ten to the power `e`, or nothing if that exceeds the doubles.  Powers
beyond `10 ^ 308` are no doubles themselves; division by them is done in parts. -/
def scale (x : Float) (e : Int) : Option Float :=
  if e.natAbs ≤ 308 then
    let power := Float.ofScientific 1 false e.natAbs
    let y := if 0 ≤ e then x * power else x / power
    if y.isFinite then some y else none
  else if x == 0 then some x
  else if 0 ≤ e then none
  else scale (x / Float.ofScientific 1 false 308) (e + 308)
termination_by (-e).toNat
decreasing_by omega

/-- The magnitude of a numeral that is read as a real. -/
def magnitude? (n : Decimal.Numeral) : Option Float :=
  let (s, leftWhole) := takeDigits 0 n.whole
  let (s, leftFraction) := takeDigits s n.fraction
  let shift : Int := leftWhole - (n.fraction.length - leftFraction : Int)
  let x := Float.ofNat s
  match n.exponent with
  | none => scale x shift
  | some (negative, ds) =>
      let e := digitsValue ds
      if 0x80000000 ≤ e then
        -- The power itself is beyond reason: nothing or too much.
        if s = 0 ∨ negative then some 0 else none
      else scale x (if negative then shift - e else shift + e)

/-- The real that a numeral is read as. -/
def real? (n : Decimal.Numeral) : Option Number :=
  (magnitude? n).map fun x => .real (.ofFloat (if n.negative then -x else x))

/-- The number that a numeral is read as. -/
def number? (n : Decimal.Numeral) : Option Number :=
  if n.fraction.isEmpty && n.exponent.isNone then
    let m := digitsValue n.whole
    if n.negative && m = 0 then real? n
    else
      match Number.fit? (if n.negative then -m else m) with
      | some w => some (.int w)
      | none => real? n
  else real? n

end Abacus.Json
