import Abacus.Decimal.Layout

/-!
# Numbers

The calculator knows two kinds of number: integers of 64 bits, which are exact, and
real numbers, which are binary floating point.  A literal stands for an integer if there
is a word for it, which `Number.fit?` decides.
-/

namespace Abacus

/-- A value of the calculator. -/
inductive Number where
  /-- An integer in the range of a signed 64-bit word. -/
  | int (n : Int64)
  /-- A real number, rounded to double precision. -/
  | real (x : Double)
  deriving DecidableEq

namespace Number

instance : Inhabited Number := ⟨.int 0⟩

/-- There is a word for the integer: signed 64-bit words reach from `-2 ^ 63` to `2 ^ 63 - 1`. -/
def InRange (n : Int) : Prop := -0x8000000000000000 ≤ n ∧ n < 0x8000000000000000

instance (n : Int) : Decidable (InRange n) := inferInstanceAs (Decidable (_ ∧ _))

/-- The word that stands for `n`, if there is one. -/
def fit? (n : Int) : Option Int64 := if InRange n then some (Int64.ofInt n) else none

/-- The number as a float to calculate with. -/
def toReal : Number → Float
  | .int n => Float.ofInt n.toInt
  | .real x => x.toFloat

/-- The text of a number, in decimal. -/
def text : Number → String
  | .int n => toString n.toInt
  | .real x => Decimal.plain x

/-- Numbers agree when they are the same integer or equal as reals.  The two zeros
agree, and an integer never agrees with a real. -/
def agrees : Number → Number → Bool
  | .int m, .int n => m == n
  | .real x, .real y => x.agrees y
  | _, _ => false

instance : BEq Number := ⟨agrees⟩

theorem inRange_toInt (w : Int64) : InRange w.toInt := ⟨Int64.le_toInt w, Int64.toInt_lt w⟩

/-- Every word fits as itself. -/
theorem fit?_toInt (w : Int64) : fit? w.toInt = some w := by
  rw [fit?, if_pos (inRange_toInt w), Int64.ofInt_toInt]

/-- A number that fits is represented by its word. -/
theorem fit?_eq_some_iff {n : Int} {w : Int64} : fit? n = some w ↔ w.toInt = n := by
  refine ⟨fun h => ?_, fun h => h ▸ fit?_toInt w⟩
  unfold fit? at h
  split at h
  next hn =>
    obtain rfl := Option.some.inj h
    exact Int64.toInt_ofInt_of_le hn.1 hn.2
  next => cases h

/-- A number does not fit exactly when it is out of range. -/
theorem fit?_eq_none_iff {n : Int} : fit? n = none ↔ ¬ InRange n := by
  unfold fit?
  split <;> simp_all

end Number

end Abacus
