import Abacus.Number

/-!
# Output formats

Integer results are shown in decimal, hexadecimal, octal or binary, as the user
chooses with `output`.  The sign stands in front of the magnitude, and the prefix is
the one a literal of that base is written with, so that what is printed can be typed
in again.  Real numbers are always decimal.
-/

namespace Abacus

/-- The bases in which integer results can be shown. -/
inductive Radix where
  | dec
  | hex
  | oct
  | bin
  deriving DecidableEq, Repr

namespace Radix

instance : Inhabited Radix := ⟨.dec⟩

/-- All of them. -/
def all : List Radix := [.dec, .hex, .oct, .bin]

/-- The name under which a format is chosen. -/
def name : Radix → String
  | .dec => "dec"
  | .hex => "hex"
  | .oct => "oct"
  | .bin => "bin"

/-- The format of that name, if there is one. -/
def ofName? (s : String) : Option Radix :=
  all.find? fun r => r.name == s

/-- The digits of a magnitude after the prefix of its base.  Zero is its own octal
prefix. -/
def magnitude : Radix → Nat → List Char
  | .dec, n => Nat.toDigits 10 n
  | .hex, n => '0' :: 'x' :: Nat.toDigits 16 n
  | .oct, n => if n = 0 then ['0'] else '0' :: Nat.toDigits 8 n
  | .bin, n => 'b' :: Nat.toDigits 2 n

/-- The text of an integer. -/
def renderInt (r : Radix) (n : Int) : String :=
  String.ofList ((if n < 0 then ['-'] else []) ++ r.magnitude n.natAbs)

/-- The text of a value as a result. -/
def render (r : Radix) : Number → String
  | .int n => r.renderInt n.toInt
  | .real x => Decimal.plain x

theorem ofName?_name (r : Radix) : ofName? r.name = some r := by
  cases r <;> decide

theorem ofName?_eq_some_iff {s : String} {r : Radix} : ofName? s = some r ↔ s = r.name := by
  constructor
  · intro h
    have := List.find?_some h
    exact (eq_of_beq this).symm
  · rintro rfl
    exact ofName?_name r

example : [dec, hex, oct, bin].map (·.renderInt (-10)) = ["-10", "-0xa", "-012", "-b1010"] := by
  decide +kernel

end Radix

end Abacus
