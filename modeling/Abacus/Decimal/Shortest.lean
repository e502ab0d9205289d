import Abacus.Decimal.Binary

/-!
# The fewest digits that read back

A double is printed with as few significant digits as identify it: the decimal must
lie among the reals that round to the double, and among the decimals with that many
digits the nearest to the double is taken.

## Why exact arithmetic is enough

The reals that round to a double form an interval around it, closed exactly when the
mantissa is even, because a half goes to the even neighbour.  Fix a power of ten as
the grid.  If any point of the grid lies in the interval then one of the two
neighbours of the double on that grid does, so it suffices to look at these two.
Scaled by the grid and by a power of two, everything is a natural number; nothing is
estimated, and no case needs a second try.

Going from coarse grids to fine ones, the first grid with a hit has the fewest
digits.  Seventeen digits always suffice.

Both neighbours may hit at the same distance.  Conventions differ on which one is
then printed, so this is a parameter.
-/

namespace Abacus.Decimal

/-- Which neighbour is printed when both are equally near. -/
inductive Tie where
  /-- The one whose last digit is even. -/
  | toEven
  /-- The larger one. -/
  | away
  deriving Repr, DecidableEq

/-- The number of decimal digits of a number; zero has none. -/
def digitCount (n : Nat) : Nat :=
  if n = 0 then 0 else (Nat.toDigits 10 n).length

namespace Binary

/-- The double in quarter units.  A neighbour that is half a unit away has its
midpoint at a quarter, so the ends of the interval are whole in this measure. -/
def quarters (b : Binary) : Nat := 4 * b.mantissa

/-- The lower end of the interval that rounds to the double, in quarter units. -/
def low (b : Binary) : Nat := b.quarters - (if b.closeBelow then 1 else 2)

/-- The upper end of that interval, in quarter units. -/
def high (b : Binary) : Nat := b.quarters + 2

/-- `(p, q)` with `x` quarter units equal to `x * p / q` steps of `10 ^ grid`. -/
def ratio (b : Binary) (grid : Int) : Nat × Nat :=
  (Nat.pow 2 (b.exponent - 2).toNat * Nat.pow 10 (-grid).toNat,
   Nat.pow 2 (2 - b.exponent).toNat * Nat.pow 10 grid.toNat)

/-- Whether `c` steps of `10 ^ grid` round to the double. -/
def readsBack (b : Binary) (grid : Int) (c : Nat) : Bool :=
  let (p, q) := b.ratio grid
  if b.mantissa % 2 = 0 then b.low * p ≤ c * q && c * q ≤ b.high * p
  else b.low * p < c * q && c * q < b.high * p

/-- The point of the grid that reads back and is nearest to the double, if any reads
back. -/
def nearestOn (b : Binary) (tie : Tie) (grid : Int) : Option Nat :=
  let (p, q) := b.ratio grid
  let below := b.quarters * p / q
  let above := below + 1
  match b.readsBack grid below, b.readsBack grid above with
  | false, false => none
  | true, false => some below
  | false, true => some above
  | true, true =>
      match compare (2 * (b.quarters * p)) ((below + above) * q) with
      | .lt => some below
      | .gt => some above
      | .eq =>
          match tie with
          | .away => some above
          | .toEven => some (if below % 2 = 0 then below else above)

/-- The power of ten just above the double: the least `e` with the double below
`10 ^ e`. -/
def magnitude (b : Binary) : Int :=
  let (p, q) := b.ratio 0
  let n := b.quarters * p
  if q ≤ n then digitCount (n / q)
  else 1 - (digitCount ((q + n - 1) / n - 1) : Int)

/-- The grids to try, from one significant digit to seventeen. -/
def grids (b : Binary) : List Int :=
  (List.range 17).map fun (i : Nat) => b.magnitude - 1 - (i : Int)

/-- The shortest decimal that reads back: a number of steps and the power of ten that
is one step.  The default is never reached, since seventeen digits suffice. -/
def shortest (b : Binary) (tie : Tie) : Nat × Int :=
  (b.grids.findSome? fun grid => (b.nearestOn tie grid).map fun c => (c, grid)).getD (0, 0)

end Binary

/-- A tenth. -/
example : (Binary.ofDouble ⟨0x3fb999999999999a⟩).shortest .away = (1, -1) := by decide +kernel

/-- The least positive double needs one digit, and that digit is its own. -/
example : (Binary.ofDouble ⟨1⟩).shortest .away = (5, -324) := by decide +kernel

/-- `2 ^ 50 + 1 / 4` lies halfway between its two neighbours with one decimal. -/
example : (Binary.ofDouble ⟨0x4310000000000001⟩).shortest .away = (11258999068426243, -1) ∧
    (Binary.ofDouble ⟨0x4310000000000001⟩).shortest .toEven = (11258999068426242, -1) := by
  decide +kernel

end Abacus.Decimal
