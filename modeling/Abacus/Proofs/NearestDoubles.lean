import Abacus.Proofs.Rounding

/-!
# The nearest double by its distance

That a number is rounded to a magnitude has been said by the interval around the magnitude
(`Covers`).  Here the same is said by distances (`Closest`): no other magnitude is closer, and where
another one is as close the even mantissa is preferred.  The two agree (`closest_iff_covers`).

The reason is that the ends of the interval lie halfway to the neighbours.  No magnitude is nearer
than that (`high_mul_le`, `le_low_mul`), and there is one on each side, except below zero
(`exists_above`, `exists_below`).  Exponents have no upper bound here, so that a number too large
for a double has a closest magnitude as well.
-/

namespace Abacus.Decimal.Binary

/-- No magnitude is closer to the number, and if another one is as close, then this one is even. -/
structure Closest (b : Binary) (q : ℚ) : Prop where
  le : ∀ c : Binary, c.Canonical → |b.value - q| ≤ |c.value - q|
  even : ∀ c : Binary, c.Canonical → c ≠ b → |b.value - q| = |c.value - q| → b.mantissa % 2 = 0

section Distance

variable {x y q : ℚ}

/-- Which of two numbers is closer is decided by their middle. -/
theorem abs_sub_le_iff_of_lt (h : x < y) : |x - q| ≤ |y - q| ↔ 2 * q ≤ x + y := by
  rw [← sq_le_sq]
  constructor <;> intro hle <;> nlinarith

theorem abs_sub_le_iff_of_gt (h : y < x) : |x - q| ≤ |y - q| ↔ x + y ≤ 2 * q := by
  rw [← sq_le_sq]
  constructor <;> intro hle <;> nlinarith

theorem abs_sub_eq_iff_of_ne (h : x ≠ y) : |x - q| = |y - q| ↔ 2 * q = x + y := by
  rw [abs_eq_abs]
  constructor
  · rintro (heq | heq)
    · exact absurd (sub_left_inj.mp heq) h
    · linarith
  · intro heq
    right
    linarith

end Distance

/-! ## The neighbours -/

section Neighbours

variable {b c : Binary}

/-- A magnitude with no smaller unit is a whole number of units. -/
theorem exists_value_eq_units (h : b.exponent ≤ c.exponent) :
    ∃ k : Nat, c.value = 4 * k * b.quarter := by
  obtain ⟨d, hd⟩ : ∃ d : Nat, c.exponent = b.exponent + d :=
    ⟨(c.exponent - b.exponent).toNat, by omega⟩
  have hunit : c.quarter = b.quarter * 2 ^ d := by
    rw [quarter, quarter, hd, ← zpow_natCast, ← zpow_add₀ two_ne_zero]
    congr 1
    omega
  refine ⟨c.mantissa * 2 ^ d, ?_⟩
  rw [value_eq_quarters, hunit]
  push_cast
  ring

/-- With a smaller unit it stays below the binade. -/
theorem value_le_of_exponent_lt (hc : c.Canonical) (h : c.exponent < b.exponent) :
    c.value ≤ (2 ^ 54 - 2) * b.quarter := by
  have hm : (c.mantissa : ℚ) + 1 ≤ 2 ^ 53 := by exact_mod_cast hc.lt
  have hpos := c.quarter_pos
  have hunit := quarter_lt h
  rw [value_eq_quarters]
  nlinarith

theorem Canonical.two_pow_le_mantissa (hb : b.Canonical) (h : -1074 < b.exponent) :
    (2 ^ 52 : ℚ) ≤ b.mantissa := by
  exact_mod_cast hb.long.resolve_right h.ne'

/-- No magnitude above comes closer than to twice the distance of the upper end. -/
theorem high_mul_le (hb : b.Canonical) (hc : c.Canonical) (h : b.value < c.value) :
    2 * (b.high * b.quarter) ≤ b.value + c.value := by
  have hpos := b.quarter_pos
  rw [cast_high, value_eq_quarters b]
  rw [value_eq_quarters b] at h
  rcases le_or_gt b.exponent c.exponent with he | he
  · obtain ⟨k, hk⟩ := exists_value_eq_units he
    rw [hk] at h ⊢
    have hlt : (b.mantissa : ℚ) < k := by nlinarith
    have hnext : (b.mantissa : ℚ) + 1 ≤ k := by exact_mod_cast hlt
    nlinarith
  · have hsmall := value_le_of_exponent_lt hc he
    have hlong := hb.two_pow_le_mantissa (lt_of_le_of_lt hc.least_le he)
    nlinarith

/-- No magnitude below comes closer than to twice the distance of the lower end. -/
theorem le_low_mul (hb : b.Canonical) (hc : c.Canonical) (h : c.value < b.value) :
    b.value + c.value ≤ 2 * (b.low * b.quarter) := by
  have hpos := b.quarter_pos
  have hlow := b.le_cast_low
  rw [value_eq_quarters b]
  rw [value_eq_quarters b] at h
  rcases le_or_gt b.exponent c.exponent with he | he
  · obtain ⟨k, hk⟩ := exists_value_eq_units he
    rw [hk] at h ⊢
    have hlt : (k : ℚ) < b.mantissa := by nlinarith
    have hnext : (k : ℚ) + 1 ≤ b.mantissa := by exact_mod_cast hlt
    nlinarith
  · have hsmall := value_le_of_exponent_lt hc he
    have hleast := lt_of_le_of_lt hc.least_le he
    by_cases hm : b.mantissa = 2 ^ 52
    · -- The lower neighbour is only half a unit away.
      have hlow := hb.le_low hleast
      have hmq : (b.mantissa : ℚ) = 2 ^ 52 := by exact_mod_cast hm
      rw [hmq]
      nlinarith
    · have hlong : 2 ^ 52 + 1 ≤ b.mantissa := by
        have := hb.long.resolve_right hleast.ne'
        omega
      have hlongq : (2 ^ 52 : ℚ) + 1 ≤ b.mantissa := by exact_mod_cast hlong
      nlinarith

/-- Rounding to a whole number of units does not change that number, even when it carries. -/
theorem value_carried {r : Nat} (hr : r ≤ 2 ^ 53) (e : Int) : (carried r e).value = r * 2 ^ e := by
  unfold carried
  split
  next => rfl
  next h =>
    have hr : r = 2 ^ 53 := by omega
    rw [value, hr, zpow_add_one₀ two_ne_zero]
    push_cast
    ring

theorem two_zpow_exponent (b : Binary) : (2 : ℚ) ^ b.exponent = 4 * b.quarter := by
  have h := b.div_quarter 1
  rwa [one_mul, mul_one, div_eq_iff b.quarter_pos.ne'] at h

/-- There is a magnitude as far above as the upper end allows. -/
theorem exists_above (hb : b.Canonical) :
    ∃ c : Binary, c.Canonical ∧ b.value < c.value ∧
      b.value + c.value = 2 * (b.high * b.quarter) := by
  have hlt := hb.lt
  have hpos := b.quarter_pos
  have hvalue := value_carried (r := b.mantissa + 1) (by omega) b.exponent
  rw [two_zpow_exponent] at hvalue
  refine ⟨carried (b.mantissa + 1) b.exponent,
    canonical_carried hb.least_le (hb.long.imp_left fun h => by omega), ?_, ?_⟩
  · rw [hvalue, value_eq_quarters]
    push_cast
    linarith
  · rw [hvalue, value_eq_quarters, cast_high]
    push_cast
    ring

/-- There is one as far below as the lower end allows, except below zero. -/
theorem exists_below (hb : b.Canonical) (hm : b.mantissa ≠ 0) :
    ∃ c : Binary, c.Canonical ∧ c.value < b.value ∧
      b.value + c.value = 2 * (b.low * b.quarter) := by
  have hlt := hb.lt
  have hpos := b.quarter_pos
  have hlow := cast_low hm
  cases hclose : b.closeBelow with
  | false =>
    have hopen : ¬ (b.mantissa = 2 ^ 52 ∧ -1074 < b.exponent) := fun h => by
      rw [hb.closeBelow_iff.mpr h] at hclose
      cases hclose
    have hlong : 2 ^ 52 ≤ b.mantissa - 1 ∨ b.exponent = -1074 := by
      have := hb.long
      have := hb.least_le
      omega
    have hvalue := value_carried (r := b.mantissa - 1) (by omega) b.exponent
    rw [two_zpow_exponent, Nat.cast_pred (Nat.pos_of_ne_zero hm)] at hvalue
    rw [hclose, if_neg (by decide)] at hlow
    refine ⟨carried (b.mantissa - 1) b.exponent, canonical_carried hb.least_le hlong, ?_, ?_⟩
    · rw [hvalue, value_eq_quarters]
      linarith
    · rw [hvalue, value_eq_quarters, hlow]
      ring
  | true =>
    obtain ⟨hmantissa, hleast⟩ := hb.closeBelow_iff.mp hclose
    have hvalue := value_carried (r := 2 ^ 53 - 1) (by decide) (b.exponent - 1)
    rw [zpow_sub_one₀ two_ne_zero, two_zpow_exponent] at hvalue
    rw [hclose, if_pos rfl, hmantissa] at hlow
    refine ⟨carried (2 ^ 53 - 1) (b.exponent - 1),
      canonical_carried (by omega) (.inl (by decide)), ?_, ?_⟩
    · rw [hvalue, value_eq_quarters, hmantissa]
      push_cast
      linarith
    · rw [hvalue, value_eq_quarters, hlow, hmantissa]
      push_cast
      ring

end Neighbours

/-! ## Rounding by distance -/

section Closest

variable {b : Binary} {q : ℚ}

theorem Covers.closest (hb : b.Canonical) (h : b.Covers q) : b.Closest q where
  le c hc := by
    rcases lt_trichotomy b.value c.value with hlt | heq | hgt
    · rw [abs_sub_le_iff_of_lt hlt]
      have hupper := h.le_mul_quarter
      have hmiddle := high_mul_le hb hc hlt
      rw [cast_high] at hmiddle
      linarith
    · rw [heq]
    · rw [abs_sub_le_iff_of_gt hgt]
      linarith [le_low_mul hb hc hgt, h.low_mul_le]
  even c hc hne heq := by
    by_contra hodd
    have hpos := b.quarter_pos
    obtain ⟨hlow, hhigh⟩ := h.lt_of_odd (by omega)
    rw [lt_div_iff₀ hpos] at hlow
    rw [div_lt_iff₀ hpos] at hhigh
    rcases lt_trichotomy b.value c.value with hlt | hvalue | hgt
    · rw [abs_sub_eq_iff_of_ne hlt.ne] at heq
      linarith [high_mul_le hb hc hlt]
    · exact hne (Covers.unique hc hb hc.covers_value (hvalue ▸ hb.covers_value))
    · rw [abs_sub_eq_iff_of_ne hgt.ne'] at heq
      linarith [le_low_mul hb hc hgt]

theorem Closest.covers (hb : b.Canonical) (hq : 0 ≤ q) (h : b.Closest q) : b.Covers q := by
  have hpos := b.quarter_pos
  obtain ⟨above, habove, hlt, hupper⟩ := exists_above hb
  have hhigh := (abs_sub_le_iff_of_lt hlt).mp (h.le above habove)
  have hlow : b.low * b.quarter ≤ q := by
    by_cases hm : b.mantissa = 0
    · simpa [low, quarters, hm] using hq
    · obtain ⟨below, hbelow, hgt, hlower⟩ := exists_below hb hm
      have := (abs_sub_le_iff_of_gt hgt).mp (h.le below hbelow)
      linarith
  unfold Covers
  rw [le_div_iff₀ hpos, div_le_iff₀ hpos, lt_div_iff₀ hpos, div_lt_iff₀ hpos]
  split
  next => exact ⟨hlow, by linarith⟩
  next hodd =>
    -- An end is as close to the neighbour, and would make the mantissa even.
    refine ⟨lt_of_le_of_ne hlow fun heq => hodd ?_, lt_of_le_of_ne (by linarith) fun heq => hodd ?_⟩
    · have hm : b.mantissa ≠ 0 := fun hm => hodd (by rw [hm])
      obtain ⟨below, hbelow, hgt, hlower⟩ := exists_below hb hm
      exact h.even below hbelow (fun hsame => hgt.ne (hsame ▸ rfl))
        ((abs_sub_eq_iff_of_ne hgt.ne').mpr (by linarith))
    · exact h.even above habove (fun hsame => hlt.ne' (hsame ▸ rfl))
        ((abs_sub_eq_iff_of_ne hlt.ne).mpr (by linarith))

/-- **A number is rounded to the closest magnitude.** -/
theorem closest_iff_covers (hb : b.Canonical) (hq : 0 ≤ q) : b.Closest q ↔ b.Covers q :=
  ⟨Closest.covers hb hq, Covers.closest hb⟩

end Closest

end Abacus.Decimal.Binary
