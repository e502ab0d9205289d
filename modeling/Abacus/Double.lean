/-!
# Doubles

Real numbers are doubles: words of 64 bits that encode a binary floating point number.
Arithmetic is done on floats, but what is kept is the word.  The difference shows where
a value is undefined: there are many words for that, a float does not tell them apart,
and yet an operation that only concerns the sign leaves the rest of the word alone.

A word has three fields: the sign, eleven bits of exponent, and 52 bits of fraction.
An exponent of all ones marks what is not finite.
-/

namespace Abacus

/-- A real number in double precision, given by its encoding. -/
structure Double where
  bits : UInt64
  deriving DecidableEq, Repr

namespace Double

instance : Inhabited Double := ⟨⟨0⟩⟩

/-- The float to calculate with. -/
def toFloat (x : Double) : Float := Float.ofBits x.bits

/-- The double that a float is kept as. -/
def ofFloat (x : Float) : Double := ⟨x.toBits⟩

/-- The bit above the fraction, `2 ^ 52`. -/
abbrev leadingBit : Nat := 0x10000000000000

/-- The low 52 bits. -/
def fractionField (x : Double) : Nat := x.bits.toNat % leadingBit

/-- The eleven bits above the fraction. -/
def exponentField (x : Double) : Nat := x.bits.toNat / leadingBit % 0x800

/-- The highest bit: whether the number has a minus sign. -/
def isNegative (x : Double) : Bool := x.bits.toNat / 0x8000000000000000 % 2 == 1

/-- Whether the number is neither infinite nor undefined. -/
def isFinite (x : Double) : Bool := x.exponentField != 0x7ff

/-- Whether the number is undefined. -/
def isUndefined (x : Double) : Bool := !x.isFinite && x.fractionField != 0

/-- The same with the other sign. -/
def negate (x : Double) : Double := ⟨x.bits ^^^ 0x8000000000000000⟩

/-- The same without a minus sign. -/
def abs (x : Double) : Double := ⟨x.bits &&& 0x7fffffffffffffff⟩

/-- Whether two doubles are equal as numbers.  The two zeros are, and what is undefined
is not even equal to itself. -/
def agrees (x y : Double) : Bool := x.toFloat == y.toFloat

/-- Changing the sign twice changes nothing. -/
theorem negate_negate (x : Double) : x.negate.negate = x := by
  simp only [negate, UInt64.xor_assoc, UInt64.xor_self, UInt64.xor_zero]

/-- One, minus infinity, and an undefined value. -/
example : ([⟨0x3ff0000000000000⟩, ⟨0xfff0000000000000⟩, ⟨0x7ff8000000000001⟩] : List Double).map
      (fun x => (x.isNegative, x.isFinite, x.isUndefined)) =
    [(false, true, false), (true, false, false), (false, false, true)] := by decide

end Double

end Abacus
