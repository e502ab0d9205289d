import Mathlib.Algebra.Order.Field.Power
import Mathlib.Tactic.FieldSimp
import Mathlib.Tactic.Linarith
import Mathlib.Tactic.Positivity
import Abacus.Decimal.Shortest
import Abacus.Proofs.FloatWord

/-!
# Rounding to the nearest double

An operation on floats finds more of its exact result than a mantissa can hold and then
rounds.  This module proves that it rounds to the nearest double: the exact result lies
in the interval of reals around the double that printing works with too.

## The interval of a double

A double covers the reals from halfway to the neighbour below up to halfway to the
neighbour above, and the two ends as well if its mantissa is even.  Measured in quarters
of the unit the ends are whole numbers (`Binary.low`, `Binary.high`), so that one
definition of the interval serves for the printing of decimals, which is done in whole
numbers, and for the rounding of rationals.

## How rounding is done

What is known of a number is its whole part and where the rest lies: at zero, below one
half, at one half, or above.  This survives a division by two that drops a bit
(`Describes.shiftRightOne`), so it survives any number of them, and at the end it is just
what is needed to choose the nearest whole number.
-/

namespace Abacus.Decimal

open Float.Model (Format totalExponent)
open Float.Model.UnpackedFloat (Accuracy ExtendedMantissa Sign roundWithAccuracy
  shiftToExponent shiftToTargetExponent)

namespace Binary

/-- The number that a magnitude stands for. -/
def value (b : Binary) : ℚ := b.mantissa * 2 ^ b.exponent

/-- A quarter of the unit. -/
def quarter (b : Binary) : ℚ := 2 ^ (b.exponent - 2)

/-- Whether a real rounds to this magnitude. -/
def Covers (b : Binary) (q : ℚ) : Prop :=
  if b.mantissa % 2 = 0 then b.low ≤ q / b.quarter ∧ q / b.quarter ≤ b.high
  else b.low < q / b.quarter ∧ q / b.quarter < b.high

theorem quarter_pos (b : Binary) : 0 < b.quarter := by
  unfold quarter
  positivity

theorem div_quarter (b : Binary) (y : ℚ) : y * 2 ^ b.exponent / b.quarter = 4 * y := by
  have h : (2 : ℚ) ^ b.exponent = 4 * b.quarter := by
    rw [quarter, show (4 : ℚ) = 2 ^ (2 : ℤ) by norm_num, ← zpow_add₀ two_ne_zero]
    congr 1
    omega
  rw [h]
  field_simp [b.quarter_pos.ne']

theorem value_eq_quarters (b : Binary) : b.value = 4 * b.mantissa * b.quarter := by
  have h := b.div_quarter b.mantissa
  rwa [div_eq_iff b.quarter_pos.ne'] at h

/-- What is not zero has units. -/
theorem mantissa_ne_zero {b : Binary} (h : 0 < b.value) : b.mantissa ≠ 0 := by
  intro hzero
  rw [value, hzero, Nat.cast_zero, zero_mul] at h
  exact lt_irrefl 0 h

theorem Covers.le {b : Binary} {q : ℚ} (h : b.Covers q) :
    b.low ≤ q / b.quarter ∧ q / b.quarter ≤ b.high := by
  unfold Covers at h
  split at h
  · exact h
  · exact ⟨h.1.le, h.2.le⟩

theorem Covers.lt_of_odd {b : Binary} {q : ℚ} (h : b.Covers q) (hodd : b.mantissa % 2 = 1) :
    b.low < q / b.quarter ∧ q / b.quarter < b.high := by
  unfold Covers at h
  rwa [if_neg (by omega)] at h

theorem cast_high (b : Binary) : (b.high : ℚ) = 4 * b.mantissa + 2 := by
  simp [high, quarters]

/-- The lower end, but for zero, which has none. -/
theorem cast_low {b : Binary} (h : b.mantissa ≠ 0) :
    (b.low : ℚ) = 4 * b.mantissa - (if b.closeBelow then 1 else 2) := by
  unfold low quarters
  split
  · rw [Nat.cast_sub (by omega)]
    push_cast
    ring
  · rw [Nat.cast_sub (by omega)]
    push_cast
    ring

/-- The lower end is at most half a unit away. -/
theorem le_cast_low (b : Binary) : (4 * b.mantissa - 2 : ℚ) ≤ b.low := by
  by_cases hm : b.mantissa = 0
  · have hlow : (0 : ℚ) ≤ b.low := Nat.cast_nonneg _
    rw [hm, Nat.cast_zero]
    linarith
  · rw [cast_low hm]
    split <;> linarith

theorem Covers.low_mul_le {b : Binary} {q : ℚ} (h : b.Covers q) : b.low * b.quarter ≤ q :=
  (le_div_iff₀ b.quarter_pos).mp h.le.1

theorem Covers.le_mul_quarter {b : Binary} {q : ℚ} (h : b.Covers q) :
    q ≤ (4 * b.mantissa + 2) * b.quarter := by
  have hupper := (div_le_iff₀ b.quarter_pos).mp h.le.2
  rwa [cast_high] at hupper

theorem Covers.mul_quarter_le {b : Binary} {q : ℚ} (h : b.Covers q) :
    (4 * b.mantissa - 2) * b.quarter ≤ q :=
  le_trans (mul_le_mul_of_nonneg_right b.le_cast_low b.quarter_pos.le) h.low_mul_le

/-- What is within half a unit of the mantissa is covered. -/
theorem covers_of_near {b : Binary} {y : ℚ} (hy : 0 ≤ y)
    (hclose : b.closeBelow = true → b.mantissa % 2 = 0 ∧ b.mantissa ≤ y + 1 / 4)
    (hlow : b.mantissa ≤ y + 1 / 2) (hhigh : y ≤ b.mantissa + 1 / 2)
    (hodd : b.mantissa % 2 = 1 → b.mantissa < y + 1 / 2 ∧ y < b.mantissa + 1 / 2) :
    b.Covers (y * 2 ^ b.exponent) := by
  have hl : (b.low : ℚ) ≤ 4 * y ∧ (b.mantissa % 2 = 1 → (b.low : ℚ) < 4 * y) := by
    by_cases hzero : b.mantissa = 0
    · have : b.low = 0 := by simp [low, quarters, hzero]
      rw [this, hzero]
      exact ⟨by push_cast; linarith, fun h => absurd h (by decide)⟩
    · rw [cast_low hzero]
      split
      next h =>
        obtain ⟨heven, hnear⟩ := hclose h
        exact ⟨by linarith, fun hodd => absurd hodd (by omega)⟩
      next => exact ⟨by linarith, fun h => by linarith [(hodd h).1]⟩
  unfold Covers
  rw [div_quarter, cast_high]
  split
  next h => exact ⟨hl.1, by linarith⟩
  next h =>
    have hone : b.mantissa % 2 = 1 := by omega
    exact ⟨hl.2 hone, by linarith [(hodd hone).2]⟩

/-! ## The intervals do not overlap -/

/-- A magnitude that is not subnormal starts no lower than here. -/
theorem Canonical.le_low {b : Binary} (hb : b.Canonical) (h : -1074 < b.exponent) :
    (2 ^ 54 : ℚ) ≤ b.low + 1 := by
  have hlong := hb.long.resolve_right (by omega)
  have hclose := hb.closeBelow_iff
  have hlow : 2 ^ 54 ≤ b.low + 1 := by
    unfold low quarters
    by_cases hm : b.mantissa = 2 ^ 52
    · rw [if_pos (hclose.mpr ⟨hm, h⟩)]
      omega
    · rw [if_neg (fun hc => hm (hclose.mp hc).1)]
      omega
  exact_mod_cast hlow

theorem quarter_lt {b c : Binary} (h : b.exponent < c.exponent) : 2 * b.quarter ≤ c.quarter := by
  have hstep : 2 * b.quarter = 2 ^ (b.exponent - 2 + 1) := by
    rw [quarter, zpow_add_one₀ two_ne_zero, mul_comm]
  rw [hstep, quarter]
  exact zpow_le_zpow_right₀ one_le_two (by omega)

/-- What a magnitude covers lies below all that a magnitude with a larger unit covers. -/
theorem not_covers_of_exponent_lt {b c : Binary} {q : ℚ} (hb : b.Canonical) (hc : c.Canonical)
    (h : b.exponent < c.exponent) (hbq : b.Covers q) : ¬ c.Covers q := by
  intro hcq
  have hpos := b.quarter_pos
  have hlow := hc.le_low (lt_of_le_of_lt hb.least_le h)
  have hlower : 2 ^ 55 - 2 ≤ q / b.quarter := by
    rw [le_div_iff₀ hpos]
    have hbound := hcq.low_mul_le
    have hunit := quarter_lt h
    nlinarith
  have hlt := hb.lt
  by_cases hlast : b.mantissa + 1 = 2 ^ 53
  · -- The last mantissa is odd, so the end of its interval is not covered.
    have hupper := (hbq.lt_of_odd (by omega)).2
    have hm : (b.mantissa : ℚ) + 1 = 2 ^ 53 := by exact_mod_cast hlast
    rw [cast_high] at hupper
    linarith
  · have hupper := hbq.le.2
    have hm : (b.mantissa : ℚ) + 2 ≤ 2 ^ 53 := by
      have : b.mantissa + 2 ≤ 2 ^ 53 := by omega
      exact_mod_cast this
    rw [cast_high] at hupper
    linarith

/-- What a magnitude covers lies below all that a larger one with the same unit covers. -/
theorem not_covers_of_mantissa_lt {b c : Binary} {q : ℚ} (he : b.exponent = c.exponent)
    (h : b.mantissa < c.mantissa) (hbq : b.Covers q) : ¬ c.Covers q := by
  intro hcq
  have hunit : c.quarter = b.quarter := by rw [quarter, quarter, he]
  have hlow := c.le_cast_low
  have hhigh := b.cast_high
  have hupper := hbq.le.2
  have hlower := hcq.le.1
  rw [hunit] at hlower
  have hstep : (b.mantissa : ℚ) + 1 ≤ c.mantissa := by exact_mod_cast h
  -- The intervals meet in an end at most, and one of two neighbours is odd.
  by_cases hnext : c.mantissa = b.mantissa + 1
  · rcases Nat.mod_two_eq_zero_or_one b.mantissa with hbit | hbit
    · have hodd := (hcq.lt_of_odd (by omega)).1
      rw [hunit] at hodd
      linarith
    · have hodd := (hbq.lt_of_odd hbit).2
      linarith
  · have hfar : (b.mantissa : ℚ) + 2 ≤ c.mantissa := by
      have : b.mantissa + 2 ≤ c.mantissa := by omega
      exact_mod_cast this
    linarith

/-- **At most one double is the nearest.** -/
theorem Covers.unique {b c : Binary} {q : ℚ} (hb : b.Canonical) (hc : c.Canonical)
    (hbq : b.Covers q) (hcq : c.Covers q) : b = c := by
  rcases lt_trichotomy b.exponent c.exponent with he | he | he
  · exact absurd hcq (not_covers_of_exponent_lt hb hc he hbq)
  · rcases lt_trichotomy b.mantissa c.mantissa with hm | hm | hm
    · exact absurd hcq (not_covers_of_mantissa_lt he hm hbq)
    · exact hb.ext hc hm he
    · exact absurd hbq (not_covers_of_mantissa_lt he.symm hm hcq)
  · exact absurd hbq (not_covers_of_exponent_lt hc hb he hcq)

/-- A magnitude covers its own value. -/
theorem Canonical.covers_value {b : Binary} (hb : b.Canonical) : b.Covers b.value := by
  refine covers_of_near (Nat.cast_nonneg _) (fun hclose => ⟨?_, by linarith⟩) (by linarith)
    (by linarith) fun _ => ⟨by linarith, by linarith⟩
  rw [(hb.closeBelow_iff.mp hclose).1]
  decide

/-- **A number that needs no rounding is not rounded.** -/
theorem Covers.value_eq {b : Binary} (hb : b.Canonical) {n : Nat} {k : Int} (hn : n < 2 ^ 53)
    (hk : -1074 ≤ k) (h : b.Covers (n * 2 ^ k)) : b.value = n * 2 ^ k := by
  rcases le_or_gt b.exponent k with he | he
  · -- The number is a whole number of units, and the nearest such number is itself.
    obtain ⟨d, hd⟩ : ∃ d : Nat, k = b.exponent + d := ⟨(k - b.exponent).toNat, by omega⟩
    have hunits : (n : ℚ) * 2 ^ k = ((n * 2 ^ d : Nat) : ℚ) * 2 ^ b.exponent := by
      rw [hd, zpow_add₀ two_ne_zero, zpow_natCast]
      push_cast
      ring
    rw [hunits] at h ⊢
    have hends := h.le
    rw [div_quarter] at hends
    have hlower : b.low ≤ 4 * (n * 2 ^ d) := by exact_mod_cast hends.1
    have hupper : 4 * (n * 2 ^ d) ≤ b.high := by exact_mod_cast hends.2
    have hsame : b.mantissa = n * 2 ^ d := by
      unfold low quarters at hlower
      unfold high quarters at hupper
      split at hlower <;> omega
    rw [value, hsame]
  · have hlow := hb.le_low (lt_of_le_of_lt hk he)
    have hlower := h.low_mul_le
    have hn1 : (n : ℚ) + 1 ≤ 2 ^ 53 := by exact_mod_cast hn
    have hunit : (2 : ℚ) ^ k ≤ 2 * b.quarter := by
      rw [quarter, mul_comm, ← zpow_add_one₀ two_ne_zero]
      exact zpow_le_zpow_right₀ one_le_two (by omega)
    have hpos := b.quarter_pos
    have hvalue : (n : ℚ) * 2 ^ k ≤ (2 ^ 53 - 1) * (2 * b.quarter) :=
      mul_le_mul (by linarith) hunit (by positivity) (by norm_num)
    nlinarith

/-- **Rounding changes a number from one on by one part in `2 ^ 53` at most.** -/
theorem Covers.error {b : Binary} (hb : b.Canonical) {q : ℚ} (h : b.Covers q) (hq : 1 ≤ q) :
    (2 ^ 53 - 1) * b.value ≤ 2 ^ 53 * q ∧ 2 ^ 53 * q ≤ (2 ^ 53 + 1) * b.value := by
  have hpos := b.quarter_pos
  have hupper := h.le_mul_quarter
  have hlower := h.mul_quarter_le
  -- A mantissa that is not long belongs to a number far below one.
  have hlong : 2 ^ 52 ≤ b.mantissa := by
    refine hb.long.resolve_right fun hleast => ?_
    have hquarter : b.quarter = 2 ^ (-1076 : Int) := by
      rw [quarter, hleast]
      rfl
    have hlt : (b.mantissa : ℚ) < 2 ^ 53 := by exact_mod_cast hb.lt
    have hsmall : b.quarter ≤ 2 ^ (-60 : Int) := by
      rw [hquarter]
      exact zpow_le_zpow_right₀ one_le_two (by decide)
    have htiny : (2 : ℚ) ^ (-60 : Int) = 1 / 2 ^ 60 := by norm_num
    rw [htiny] at hsmall
    nlinarith
  have hm : (2 ^ 52 : ℚ) ≤ b.mantissa := by exact_mod_cast hlong
  rw [value_eq_quarters]
  constructor
  · nlinarith
  · nlinarith

/-- A quarter of the largest unit that fits into a word. -/
def lastQuarter : ℚ := 2 ^ 969

/-- The least number that is too large to be rounded to a finite double. -/
def overflow : ℚ := (2 ^ 55 - 2) * lastQuarter

theorem lastQuarter_pos : 0 < lastQuarter := by
  unfold lastQuarter
  positivity

theorem pow_le_lastQuarter {n : Nat} (hn : n ≤ 969) : 2 ^ n ≤ lastQuarter :=
  pow_le_pow_right₀ one_le_two hn

theorem lt_overflow {q : ℚ} {n : Nat} (hn : n ≤ 969) (h : q ≤ 2 ^ n) : q < overflow := by
  have hfar := pow_le_lastQuarter hn
  have hpos : (0 : ℚ) < 2 ^ n := by positivity
  unfold overflow
  linarith

/-- Rounding at most doubles a number. -/
theorem Covers.value_le {b : Binary} {q : ℚ} (h : b.Covers q) : b.value ≤ 2 * q := by
  have hpos := b.quarter_pos
  rw [value_eq_quarters]
  by_cases hm : b.mantissa = 0
  · have hq : 0 ≤ q := le_trans (by positivity) h.low_mul_le
    rw [hm, Nat.cast_zero]
    linarith
  · have hone : (1 : ℚ) ≤ b.mantissa := by exact_mod_cast Nat.pos_of_ne_zero hm
    have hlower := h.mul_quarter_le
    nlinarith

/-- The nearest double of a number that is not too large has a unit that fits. -/
theorem Covers.exponent_le {b : Binary} (hb : b.Canonical) {q : ℚ} (h : b.Covers q)
    (hq : q < overflow) : b.exponent ≤ 971 := by
  refine le_of_not_gt fun he => absurd hq (not_lt.mpr ?_)
  have hlow := hb.le_low (by omega)
  have hunit : 2 * lastQuarter ≤ b.quarter := by
    rw [lastQuarter, ← pow_succ', quarter, ← zpow_natCast]
    exact zpow_le_zpow_right₀ one_le_two (by push_cast; omega)
  have hlast := lastQuarter_pos
  calc overflow = (2 ^ 54 - 1) * (2 * lastQuarter) := by unfold overflow; ring
    _ ≤ b.low * b.quarter :=
        mul_le_mul (by linarith) hunit (by positivity) (Nat.cast_nonneg _)
    _ ≤ q := h.low_mul_le

end Binary

/-! ## What is known of a number -/

/-- Where a number lies above its whole part. -/
def Describes (m : Nat) (y : ℚ) : Accuracy → Prop
  | .exact => y = m
  | .inexact .lt => m < y ∧ y < m + 1 / 2
  | .inexact .eq => y = m + 1 / 2
  | .inexact .gt => m + 1 / 2 < y ∧ y < m + 1

theorem Describes.bounds {m : Nat} {y : ℚ} {a : Accuracy} (h : Describes m y a) :
    (m : ℚ) ≤ y ∧ y < m + 1 := by
  rcases a with _ | o
  · exact ⟨le_of_eq h.symm, by rw [h]; linarith⟩
  · cases o with
    | lt => exact ⟨h.1.le, by linarith [h.2]⟩
    | eq => rw [h]; constructor <;> linarith
    | gt => exact ⟨by linarith [h.1], h.2⟩

theorem Describes.ofMantissaAndAccuracy {m : Nat} {y : ℚ} {a : Accuracy} (h : Describes m y a) :
    Describes (ExtendedMantissa.ofMantissaAndAccuracy m a).mantissa y
      (ExtendedMantissa.ofMantissaAndAccuracy m a).accuracy := by
  rcases a with _ | o
  · exact h
  · cases o <;> exact h

/-- Halving a number drops a bit of its whole part. -/
theorem Describes.shiftRightOne {em : ExtendedMantissa} {y : ℚ}
    (h : Describes em.mantissa y em.accuracy) :
    Describes em.shiftRightOne.mantissa (y / 2) em.shiftRightOne.accuracy := by
  obtain ⟨m, r, s⟩ := em
  have hm : (m : ℚ) = 2 * (m / 2 : Nat) + (m % 2 : Nat) := by
    exact_mod_cast (Nat.div_add_mod m 2).symm
  rcases Nat.mod_two_eq_zero_or_one m with hbit | hbit <;> rw [hbit] at hm <;>
    cases r <;> cases s <;>
    simp only [ExtendedMantissa.shiftRightOne, ExtendedMantissa.accuracy, Describes, hbit, hm,
      Nat.cast_zero, Nat.cast_one, add_zero, Bool.or_false, Bool.or_true, bne_self_eq_false,
      show ((1 : Nat) != 0) = true from rfl] at h ⊢
  all_goals first | linarith | constructor <;> linarith

theorem Describes.shiftRight {em : ExtendedMantissa} {y : ℚ}
    (h : Describes em.mantissa y em.accuracy) (n : Nat) :
    Describes (em >>> n).mantissa (y / 2 ^ n) (em >>> n).accuracy := by
  induction n with
  | zero => simpa [HShiftRight.hShiftRight, Nat.repeat] using h
  | succ n ih =>
    have hstep := ih.shiftRightOne
    rw [div_div, ← pow_succ] at hstep
    exact hstep

/-- The number that rounding chooses is at most a half away, and at exactly a half it is
even. -/
theorem Describes.roundedMantissa {em : ExtendedMantissa} {y : ℚ}
    (h : Describes em.mantissa y em.accuracy) :
    em.roundedMantissa ≤ y + 1 / 2 ∧ y ≤ em.roundedMantissa + 1 / 2 ∧
      (em.roundedMantissa % 2 = 1 →
        em.roundedMantissa < y + 1 / 2 ∧ y < em.roundedMantissa + 1 / 2) := by
  obtain ⟨m, r, s⟩ := em
  cases r <;> cases s <;>
    simp only [ExtendedMantissa.roundedMantissa, ExtendedMantissa.accuracy,
      Accuracy.roundToNearestEven, Describes] at h ⊢
  case true.false =>
    -- The tie: one of the two whole numbers is even.
    rcases Nat.mod_two_eq_zero_or_one m with hbit | hbit <;> rw [hbit]
    · refine ⟨?_, ?_, fun hodd => ?_⟩
      · push_cast; linarith
      · push_cast; linarith
      · omega
    · refine ⟨?_, ?_, fun hodd => ?_⟩
      · push_cast; linarith
      · push_cast; linarith
      · omega
  all_goals push_cast
  all_goals exact ⟨by linarith, by linarith, fun _ => ⟨by linarith, by linarith⟩⟩

/-! ## Bringing a mantissa to its length -/

theorem targetExponent_binary64 (e : Int) :
    Format.binary64.targetExponent e = max (e - 53) (-1074) := rfl

theorem targetExponent_eq (m : Nat) (e : Int) :
    Format.binary64.targetExponent (totalExponent m e) = max (m.log2 + e - 52) (-1074) := by
  rw [targetExponent_binary64, totalExponent]
  omega

theorem shiftToTargetExponent_eq (m : Nat) (e : Int) (a : Accuracy) :
    shiftToTargetExponent Format.binary64 m e a =
      (ExtendedMantissa.ofMantissaAndAccuracy m a >>>
        (max (m.log2 + e - 52) (-1074) - e).toNat,
        e + (max (m.log2 + e - 52) (-1074) - e).toNat) := by
  simp only [shiftToTargetExponent, shiftToExponent, targetExponent_eq]

/-- A mantissa that is short enough stays. -/
theorem shiftToTargetExponent_short {m : Nat} {e : Int} (hlt : m < 2 ^ 53) (he : -1074 ≤ e) :
    shiftToTargetExponent Format.binary64 m e .exact = (⟨m, false, false⟩, e) := by
  have hlog : m.log2 ≤ 52 := by
    by_cases hzero : m = 0
    · simp [hzero]
    · have := (Nat.log2_lt hzero).mpr hlt
      omega
  have hn : (max ((m.log2 : Int) + e - 52) (-1074) - e).toNat = 0 := by omega
  rw [shiftToTargetExponent_eq, hn]
  simp [HShiftRight.hShiftRight, Nat.repeat, ExtendedMantissa.ofMantissaAndAccuracy]

/-- A mantissa that rounding up has made one bit too long is even. -/
theorem shiftToTargetExponent_carry {e : Int} (he : -1074 ≤ e) :
    shiftToTargetExponent Format.binary64 (2 ^ 53) e .exact = (⟨2 ^ 52, false, false⟩, e + 1) := by
  have hn : (max (((2 ^ 53).log2 : Int) + e - 52) (-1074) - e).toNat = 1 := by
    rw [Nat.log2_two_pow]
    omega
  rw [shiftToTargetExponent_eq, hn]
  rfl

/-- What comes out of rounding to the mantissa `r`. -/
def carried (r : Nat) (e : Int) : Binary :=
  if r < 2 ^ 53 then ⟨r, e, r == 2 ^ 52 && -1074 < e⟩ else ⟨2 ^ 52, e + 1, true⟩

theorem canonical_carried {r : Nat} {e : Int} (he : -1074 ≤ e)
    (hlong : 2 ^ 52 ≤ r ∨ e = -1074) : (carried r e).Canonical := by
  unfold carried
  split
  next h => exact ⟨h, he, hlong, by simp⟩
  next h =>
    refine ⟨?_, ?_, .inl (Nat.le_refl _), ?_⟩
    · show 2 ^ 52 < 2 ^ 53
      decide
    · show -1074 ≤ e + 1
      omega
    · have : -1074 < e + 1 := by omega
      simp [this]

theorem roundWithAccuracy_eq {s : Sign} {m : Nat} {e e' : Int} {a : Accuracy}
    {em : ExtendedMantissa} (hshift : shiftToTargetExponent Format.binary64 m e a = (em, e'))
    (he : -1074 ≤ e') (hle : em.roundedMantissa ≤ 2 ^ 53) :
    roundWithAccuracy Format.binary64 s m e a =
      (carried em.roundedMantissa e').unpacked s := by
  unfold roundWithAccuracy carried Binary.unpacked
  rw [hshift]
  dsimp only
  by_cases hlt : em.roundedMantissa < 2 ^ 53
  · rw [if_pos hlt, shiftToTargetExponent_short hlt he]
  · have heq : em.roundedMantissa = 2 ^ 53 := by omega
    rw [if_neg hlt, heq, shiftToTargetExponent_carry he]

theorem covers_carried {r : Nat} {e : Int} {y : ℚ} (hy : 0 ≤ y) (hle : r ≤ 2 ^ 53)
    (hlong : -1074 < e → 2 ^ 52 ≤ y) (hhigh53 : y < 2 ^ 53)
    (hlow : r ≤ y + 1 / 2) (hhigh : y ≤ r + 1 / 2)
    (hodd : r % 2 = 1 → r < y + 1 / 2 ∧ y < r + 1 / 2) :
    (carried r e).Covers (y * 2 ^ e) := by
  unfold carried
  split
  next h =>
    refine Binary.covers_of_near hy ?_ hlow hhigh hodd
    intro hclose
    simp only [Bool.and_eq_true, beq_iff_eq, decide_eq_true_eq] at hclose
    rw [hclose.1]
    have := hlong hclose.2
    exact ⟨show 2 ^ 52 % 2 = 0 by decide, by push_cast; linarith⟩
  next h =>
    have hr : r = 2 ^ 53 := by omega
    have hscale : y * 2 ^ e = y / 2 * 2 ^ (e + 1) := by
      rw [zpow_add_one₀ two_ne_zero]
      ring
    rw [hr] at hlow
    push_cast at hlow
    rw [hscale]
    refine Binary.covers_of_near (by positivity) (fun _ => ⟨?_, ?_⟩) ?_ ?_ fun hodd => ?_
    · show 2 ^ 52 % 2 = 0
      decide
    · push_cast; linarith
    · push_cast; linarith
    · push_cast; linarith
    · exact absurd hodd (show ¬ 2 ^ 52 % 2 = 1 by decide)

section Bits

variable {m n k : Nat} {y : ℚ}

/-- A number without its last `n` bits has no more than the others. -/
theorem div_two_pow_lt (hy : y < m + 1) (h : m.log2 < k + n) : y / 2 ^ n < 2 ^ k := by
  have hbits : m + 1 ≤ 2 ^ (k + n) :=
    le_trans Nat.lt_log2_self (Nat.pow_le_pow_right (by decide) h)
  have hcast : (m : ℚ) + 1 ≤ 2 ^ (k + n) := by exact_mod_cast hbits
  rw [div_lt_iff₀ (by positivity), ← pow_add]
  exact lt_of_lt_of_le hy hcast

theorem two_pow_le_div (hm : m ≠ 0) (hy : m ≤ y) (h : k + n ≤ m.log2) : 2 ^ k ≤ y / 2 ^ n := by
  have hbits : 2 ^ (k + n) ≤ m :=
    le_trans (Nat.pow_le_pow_right (by decide) h) (Nat.log2_self_le hm)
  have hcast : (2 : ℚ) ^ (k + n) ≤ m := by exact_mod_cast hbits
  rw [le_div_iff₀ (by positivity), ← pow_add]
  exact le_trans hcast hy

end Bits

/-- **Rounding gives the nearest double.**  What is rounded is the number `y` of units of
`2 ^ e`, of which the whole part and the place of the rest are known. -/
theorem exists_covers_roundWithAccuracy {m : Nat} {e : Int} {a : Accuracy} {y : ℚ}
    (h : Describes m y a) (hlong : 52 ≤ m.log2 ∨ e ≤ -1074) (s : Sign) :
    ∃ b : Binary, b.Canonical ∧
      roundWithAccuracy Format.binary64 s m e a = b.unpacked s ∧ b.Covers (y * 2 ^ e) := by
  obtain ⟨hm, hm1⟩ := h.bounds
  -- The mantissa loses `n` bits, which brings the unit to `2 ^ t`.
  obtain ⟨t, ht⟩ : ∃ t : Int, t = max (m.log2 + e - 52) (-1074) := ⟨_, rfl⟩
  obtain ⟨n, hn⟩ : ∃ n : Nat, n = (t - e).toNat := ⟨_, rfl⟩
  have hent : e + n = t := by omega
  have hshift := shiftToTargetExponent_eq m e a
  rw [← ht, ← hn, hent] at hshift
  have hknown := h.ofMantissaAndAccuracy.shiftRight n
  obtain ⟨em, hem⟩ : ∃ em, em = ExtendedMantissa.ofMantissaAndAccuracy m a >>> n := ⟨_, rfl⟩
  rw [← hem] at hshift hknown
  have hpos : (0 : ℚ) < 2 ^ n := by positivity
  have hscale : y * 2 ^ e = y / 2 ^ n * 2 ^ t := by
    rw [← hent, zpow_add₀ two_ne_zero, zpow_natCast]
    field_simp
  have hy : 0 ≤ y / 2 ^ n := div_nonneg (le_trans (Nat.cast_nonneg m) hm) hpos.le
  have hupper : y / 2 ^ n < 2 ^ 53 := div_two_pow_lt hm1 (by omega)
  have hlower : -1074 < t → 2 ^ 52 ≤ y / 2 ^ n := by
    intro hlt
    have hne : m ≠ 0 := by
      rintro rfl
      simp at ht hlong
      omega
    exact two_pow_le_div hne hm (by omega)
  obtain ⟨hlow, hhigh, hodd⟩ := hknown.roundedMantissa
  have hle : em.roundedMantissa ≤ 2 ^ 53 := by
    have : (em.roundedMantissa : ℚ) < 2 ^ 53 + 1 := by linarith
    exact Nat.lt_succ_iff.mp (by exact_mod_cast this)
  have hlongr : 2 ^ 52 ≤ em.roundedMantissa ∨ t = -1074 := by
    by_cases hlt : -1074 < t
    · left
      have hlower := hlower hlt
      have : (2 : ℚ) ^ 52 < em.roundedMantissa + 1 := by linarith
      exact Nat.lt_succ_iff.mp (by exact_mod_cast this)
    · right
      omega
  have hleast : -1074 ≤ t := by omega
  refine ⟨_, canonical_carried hleast hlongr, roundWithAccuracy_eq hshift hleast hle, ?_⟩
  rw [hscale]
  exact covers_carried hy hle hlower hupper hlow hhigh hodd

end Abacus.Decimal
