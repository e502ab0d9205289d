import Abacus.Text.Digit
import Abacus.Number

/-!
# Number literals

A literal is written with optional underscores anywhere.  What remains is, in this
order of preference:

* `0x` or `0X` and hexadecimal digits;
* `0b` or `b` and binary digits;
* `0` and octal digits;
* decimal digits;
* decimal digits with exactly one point among, before or after them.

## Words and integers

A literal with a base spells out the 64 bits of a word: `0xffffffffffffffff` is `-1`.
Leading zeros do not matter, but a value of more than 64 bits is no literal.  A
decimal literal spells an integer, so it has to be at most the largest one.

The last form is a real number.  It is rounded to the nearest double; a literal too
large for a double is no literal.
-/

namespace Abacus.Literal

open Abacus.Text (readNat?)

/-- The word whose bits are written out in a base. -/
def word? (base : Nat) (cs : List Char) : Option Number :=
  ((readNat? base cs).filter (· < 0x10000000000000000)).map fun n => .int (Int64.ofNat n)

/-- The integer written out in decimal. -/
def integer? (cs : List Char) : Option Number :=
  (readNat? 10 cs).bind fun n => (Number.fit? n).map .int

/-- The real number with the given digits before and after the point. -/
def real? (whole fraction : List Char) : Option Number :=
  (readNat? 10 (whole ++ fraction)).bind fun n =>
    let x := Float.ofScientific n true fraction.length
    if x.isFinite then some (.real (.ofFloat x)) else none

/-- The parts before and after the only point of a text, if it has exactly one. -/
def splitPoint? (cs : List Char) : Option (List Char × List Char) :=
  let whole := cs.takeWhile (· != '.')
  match cs.dropWhile (· != '.') with
  | [] => none
  | _ :: fraction => if fraction.contains '.' then none else some (whole, fraction)

/-- Reads a literal without underscores. -/
def readPlain? : List Char → Option Number
  | '0' :: 'x' :: cs => word? 16 cs
  | '0' :: 'X' :: cs => word? 16 cs
  | '0' :: 'b' :: cs => word? 2 cs
  | 'b' :: cs => word? 2 cs
  | cs =>
      if cs.all Char.isDigit then
        match cs with
        | '0' :: d :: ds => word? 8 (d :: ds)
        | _ => integer? cs
      else
        (splitPoint? cs).bind fun p => real? p.1 p.2

/-- Reads a literal. -/
def read? (s : String) : Option Number :=
  readPlain? (s.toList.filter (· != '_'))

example : ["42", "1_000", "0xff", "0755", "b0101", "0b11", "0"].map read? =
    [42, 1000, 255, 493, 5, 3, 0].map fun n => some (.int n) := by decide +kernel

example : ["", "_", "0x", "09", "b012", "2x", "1.2.3", ".", "9223372036854775808"].map read? =
    List.replicate 9 none := by decide +kernel

example : read? "0xffff_ffff_ffff_ffff" = some (.int (-1)) := by decide +kernel

end Abacus.Literal
