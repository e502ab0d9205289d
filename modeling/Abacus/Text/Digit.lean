/-!
# Digits

Runs of digits and the numbers they write, in bases up to sixteen.  `readNat?` is the
only way in which the program turns digits into numbers.
-/

namespace Abacus.Text

/-- The value of a digit in bases up to sixteen. -/
def digitValue? (c : Char) : Option Nat :=
  if '0' ≤ c ∧ c ≤ '9' then some (c.toNat - '0'.toNat)
  else if 'a' ≤ c ∧ c ≤ 'f' then some (c.toNat - 'a'.toNat + 10)
  else if 'A' ≤ c ∧ c ≤ 'F' then some (c.toNat - 'A'.toNat + 10)
  else none

/-- The digit's value if it is a digit of the base. -/
def digitIn? (base : Nat) (c : Char) : Option Nat :=
  (digitValue? c).filter (· < base)

/-- Reads digits from the most significant on, after a number read so far. -/
def readFrom (base : Nat) (acc : Nat) : List Char → Option Nat
  | [] => some acc
  | c :: cs => (digitIn? base c).bind fun d => readFrom base (base * acc + d) cs

/-- The number that a nonempty run of digits writes in a base. -/
def readNat? (base : Nat) (cs : List Char) : Option Nat :=
  if cs.isEmpty then none else readFrom base 0 cs

example : readNat? 16 ['f', 'F'] = some 255 := by decide
example : readNat? 8 ['0', '8'] = none := by decide

end Abacus.Text
