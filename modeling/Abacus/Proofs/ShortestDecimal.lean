import Mathlib.Tactic.LinearCombination
import Abacus.Proofs.Rounding

/-!
# The shortest decimal is found, and reads back

`Binary.shortest` tries one grid of decimals after the other and takes the first that has
a point among the reals that round to the double.  Two things have to be shown: that what
it finds does round to the double, and that it finds something.

The first is in the test that a grid point has to pass (`readsBack_iff`); the test is made
in natural numbers and the interval is one of rationals, so this is a matter of clearing
denominators.

## Seventeen digits suffice

The last grid that is tried has at least `10 ^ 16` points below the double.  So its step is
less than the double's size by that factor, and the point of the grid nearest to the double
is at most half a step away.  The interval reaches further than that to both sides, since
a mantissa has 53 bits and `2 ^ 54 < 2 * 10 ^ 16`.
-/

namespace Abacus.Decimal

/-! ## Counting digits -/

theorem lt_pow_digitCount (n : Nat) : n < 10 ^ digitCount n := by
  unfold digitCount
  split
  next h => omega
  next h => exact (Nat.length_toDigits_le_iff (by decide) Nat.length_toDigits_pos).mp le_rfl

theorem pow_digitCount_le {n : Nat} (hn : n ≠ 0) : 10 ^ (digitCount n - 1) ≤ n := by
  unfold digitCount
  rw [if_neg hn]
  rcases Nat.eq_zero_or_pos ((Nat.toDigits 10 n).length - 1) with h | h
  · rw [h]
    omega
  · refine not_lt.mp fun hlt => ?_
    have := (Nat.length_toDigits_le_iff (by decide) h).mpr hlt
    omega

theorem digitCount_pos {n : Nat} (hn : n ≠ 0) : 0 < digitCount n := by
  rw [digitCount, if_neg hn]
  exact Nat.length_toDigits_pos

namespace Binary

/-! ## Steps of a grid -/

theorem zpow_eq_div {a : ℚ} (ha : a ≠ 0) (z : Int) : a ^ z = a ^ z.toNat / a ^ (-z).toNat := by
  have hz : z = z.toNat - (-z).toNat := by omega
  conv_lhs => rw [hz]
  rw [zpow_sub₀ ha, zpow_natCast, zpow_natCast]

/-- The ratio is that of a quarter unit to a step. -/
theorem ratio_spec (b : Binary) (grid : Int) :
    0 < (b.ratio grid).1 ∧ 0 < (b.ratio grid).2 ∧
      ((b.ratio grid).1 : ℚ) / (b.ratio grid).2 = b.quarter / 10 ^ grid := by
  refine ⟨?_, ?_, ?_⟩
  · exact Nat.mul_pos (Nat.pow_pos (by decide)) (Nat.pow_pos (by decide))
  · exact Nat.mul_pos (Nat.pow_pos (by decide)) (Nat.pow_pos (by decide))
  · have hneg : -(b.exponent - 2) = 2 - b.exponent := by omega
    simp only [ratio, Nat.pow_eq, quarter]
    rw [zpow_eq_div two_ne_zero (b.exponent - 2), zpow_eq_div (by norm_num : (10 : ℚ) ≠ 0) grid,
      hneg]
    push_cast
    field_simp

/-- **A grid point passes the test when it rounds to the double.** -/
theorem readsBack_iff (b : Binary) (grid : Int) (c : Nat) :
    b.readsBack grid c = true ↔ b.Covers (c * 10 ^ grid) := by
  obtain ⟨hp, hq, hratio⟩ := b.ratio_spec grid
  have hpq : (0 : ℚ) < (b.ratio grid).1 := by exact_mod_cast hp
  have hqq : (0 : ℚ) < (b.ratio grid).2 := by exact_mod_cast hq
  have hten : (0 : ℚ) < 10 ^ grid := by positivity
  have hquarter := b.quarter_pos
  have hsteps : (c : ℚ) * 10 ^ grid / b.quarter = c * (b.ratio grid).2 / (b.ratio grid).1 := by
    rw [div_eq_div_iff hqq.ne' hten.ne'] at hratio
    rw [div_eq_div_iff hquarter.ne' hpq.ne']
    linear_combination c * hratio
  unfold readsBack Covers
  rw [hsteps]
  simp only [div_le_iff₀ hpq, le_div_iff₀ hpq, div_lt_iff₀ hpq, lt_div_iff₀ hpq]
  split
  · simp only [Bool.and_eq_true, decide_eq_true_eq]
    norm_cast
  · simp only [Bool.and_eq_true, decide_eq_true_eq]
    norm_cast

/-! ## The two neighbours -/

/-- The double in steps of a grid. -/
def steps (b : Binary) (grid : Int) : ℚ := b.value / 10 ^ grid

theorem steps_eq (b : Binary) (grid : Int) :
    b.steps grid = (b.quarters * (b.ratio grid).1 : Nat) / (b.ratio grid).2 := by
  obtain ⟨-, -, hratio⟩ := b.ratio_spec grid
  rw [quarters]
  push_cast
  rw [mul_div_assoc, hratio, steps, value_eq_quarters, mul_div_assoc]

theorem floor_bounds {n d : Nat} (hd : 0 < d) :
    ((n / d : Nat) : ℚ) ≤ (n : ℚ) / d ∧ (n : ℚ) / d < (n / d : Nat) + 1 := by
  have hdq : (0 : ℚ) < d := by exact_mod_cast hd
  rw [le_div_iff₀ hdq, div_lt_iff₀ hdq]
  constructor
  · exact_mod_cast Nat.div_mul_le_self n d
  · have h := Nat.lt_div_mul_add (a := n) hd
    rw [← Nat.succ_mul] at h
    exact_mod_cast h

/-- The grid point just below the double, or the double itself. -/
def below (b : Binary) (grid : Int) : Nat :=
  b.quarters * (b.ratio grid).1 / (b.ratio grid).2

theorem below_bounds (b : Binary) (grid : Int) :
    (b.below grid : ℚ) ≤ b.steps grid ∧ b.steps grid < b.below grid + 1 := by
  rw [steps_eq]
  exact floor_bounds (b.ratio_spec grid).2.1

/-- What is found on a grid is one of the two neighbours, and passes the test. -/
theorem readsBack_of_nearestOn {b : Binary} {tie : Tie} {grid : Int} {c : Nat}
    (h : b.nearestOn tie grid = some c) :
    b.readsBack grid c = true ∧ (c = b.below grid ∨ c = b.below grid + 1) := by
  have hbelow : b.quarters * (b.ratio grid).1 / (b.ratio grid).2 = b.below grid := rfl
  unfold nearestOn at h
  simp only [hbelow] at h
  split at h
  next => simp at h
  next hlow hhigh =>
    cases h
    exact ⟨hlow, .inl rfl⟩
  next hlow hhigh =>
    cases h
    exact ⟨hhigh, .inr rfl⟩
  next hlow hhigh =>
    have hboth : c = b.below grid ∨ c = b.below grid + 1 := by
      split at h
      · cases h; exact .inl rfl
      · cases h; exact .inr rfl
      · cases tie with
        | away => cases h; exact .inr rfl
        | toEven =>
          simp only [Option.some.injEq] at h
          split at h
          · exact .inl h.symm
          · exact .inr h.symm
    refine ⟨?_, hboth⟩
    rcases hboth with rfl | rfl
    · exact hlow
    · exact hhigh

/-- Something is found if a neighbour passes the test. -/
theorem isSome_nearestOn {b : Binary} {grid : Int} (tie : Tie)
    (h : b.readsBack grid (b.below grid) = true ∨ b.readsBack grid (b.below grid + 1) = true) :
    (b.nearestOn tie grid).isSome := by
  have hbelow : b.quarters * (b.ratio grid).1 / (b.ratio grid).2 = b.below grid := rfl
  unfold nearestOn
  simp only [hbelow]
  split
  next hlow hhigh => rw [hlow, hhigh] at h; simp at h
  next => rfl
  next => rfl
  next =>
    split
    · rfl
    · rfl
    · cases tie <;> rfl

/-! ## Seventeen digits -/

theorem covers_of_lt {b : Binary} {q : ℚ} (hlow : b.low < q / b.quarter)
    (hhigh : q / b.quarter < b.high) : b.Covers q := by
  unfold Covers
  split
  · exact ⟨hlow.le, hhigh.le⟩
  · exact ⟨hlow, hhigh⟩

/-- On a grid with `10 ^ 16` points below the double, a point half a step away reads
back. -/
theorem readsBack_of_half {b : Binary} (hb : b.Canonical) {grid : Int} {c : Nat}
    (h : 10 ^ 16 ≤ b.steps grid) (hlow : b.steps grid ≤ c + 1 / 2)
    (hhigh : c ≤ b.steps grid + 1 / 2) : b.readsBack grid c = true := by
  have hquarter := b.quarter_pos
  have hten : (0 : ℚ) < 10 ^ grid := by positivity
  -- The double is `4 * m` quarters, each of which is `u` steps.
  obtain ⟨u, hu⟩ : ∃ u : ℚ, u = b.quarter / 10 ^ grid := ⟨_, rfl⟩
  have hpos : 0 < u := hu ▸ div_pos hquarter hten
  have hsteps : b.steps grid = 4 * b.mantissa * u := by
    rw [steps, value_eq_quarters, hu, mul_div_assoc]
  have hpoint : (c : ℚ) * 10 ^ grid / b.quarter = c / u := by
    rw [hu]
    field_simp
  have hm : b.mantissa ≠ 0 := by
    intro hzero
    rw [hsteps, hzero] at h
    norm_num at h
  have hlt : (b.mantissa : ℚ) < 2 ^ 53 := by exact_mod_cast hb.lt
  have hwide : 1 / 4 < u := by
    rw [hsteps] at h
    nlinarith
  rw [readsBack_iff]
  refine covers_of_lt ?_ ?_
  · rw [hpoint, lt_div_iff₀ hpos, cast_low hm]
    split
    next hclose =>
      -- Half a unit away from the neighbour below, the mantissa is the least one.
      have hleast : (b.mantissa : ℚ) = 2 ^ 52 := by
        exact_mod_cast (hb.closeBelow_iff.mp hclose).1
      rw [hsteps, hleast] at h hlow
      rw [hleast]
      linarith
    next =>
      rw [hsteps] at hlow
      linarith
  · rw [hpoint, div_lt_iff₀ hpos, cast_high]
    rw [hsteps] at hhigh
    linarith

/-- **On a grid with `10 ^ 16` points below the double a neighbour reads back.** -/
theorem readsBack_of_fine {b : Binary} (hb : b.Canonical) {grid : Int}
    (h : 10 ^ 16 ≤ b.steps grid) :
    b.readsBack grid (b.below grid) = true ∨ b.readsBack grid (b.below grid + 1) = true := by
  obtain ⟨hlow, hhigh⟩ := b.below_bounds grid
  rcases le_or_gt (b.steps grid) (b.below grid + 1 / 2) with hnear | hfar
  · exact .inl (readsBack_of_half hb h hnear (by linarith))
  · exact .inr (readsBack_of_half hb h (by push_cast; linarith) (by push_cast; linarith))

/-- A fraction from one on, by the digits of its whole part. -/
theorem bounds_of_le {n d : Nat} (hd : 0 < d) (h : d ≤ n) :
    (10 : ℚ) ^ ((digitCount (n / d) : Int) - 1) ≤ (n : ℚ) / d ∧
      (n : ℚ) / d < 10 ^ (digitCount (n / d) : Int) := by
  have hone : n / d ≠ 0 := Nat.ne_of_gt (Nat.div_pos h hd)
  have hcount := digitCount_pos hone
  have hlow := pow_digitCount_le hone
  have hhigh := lt_pow_digitCount (n / d)
  obtain ⟨hfloor, hceil⟩ := floor_bounds (n := n) hd
  constructor
  · rw [show (digitCount (n / d) : Int) - 1 = ((digitCount (n / d) - 1 : Nat) : Int) by omega,
      zpow_natCast]
    refine le_trans ?_ hfloor
    exact_mod_cast hlow
  · rw [zpow_natCast]
    refine lt_of_lt_of_le hceil ?_
    exact_mod_cast hhigh

/-- A fraction below one, by the digits of what its reciprocal exceeds. -/
theorem bounds_of_lt {n d r : Nat} (hn : 0 < n) (h : n < d) (hr : r = (d + n - 1) / n - 1) :
    (10 : ℚ) ^ (1 - (digitCount r : Int) - 1) ≤ (n : ℚ) / d ∧
      (n : ℚ) / d < 10 ^ (1 - (digitCount r : Int)) := by
  have hdq : (0 : ℚ) < d := by exact_mod_cast lt_trans hn h
  have hdiv := Nat.div_add_mod (d + n - 1) n
  have hmod := Nat.mod_lt (d + n - 1) hn
  have htwo : 2 ≤ (d + n - 1) / n := (Nat.le_div_iff_mul_le hn).mpr (by omega)
  have hceil : d ≤ n * (r + 1) := by
    rw [show r + 1 = (d + n - 1) / n by omega]
    omega
  have hfloor : n * r < d := by
    have : n * (r + 1) = n * r + n := Nat.mul_succ n r
    rw [show r + 1 = (d + n - 1) / n by omega] at this
    omega
  have hone : r ≠ 0 := by omega
  have hcount := digitCount_pos hone
  have hlow := pow_digitCount_le hone
  have hhigh := lt_pow_digitCount r
  constructor
  · rw [show (1 : Int) - digitCount r - 1 = -(digitCount r : Int) by omega, zpow_neg,
      zpow_natCast, inv_eq_one_div, div_le_div_iff₀ (by positivity) hdq, one_mul]
    exact_mod_cast le_trans hceil (Nat.mul_le_mul_left n hhigh)
  · rw [show (1 : Int) - digitCount r = -((digitCount r - 1 : Nat) : Int) by omega, zpow_neg,
      zpow_natCast, inv_eq_one_div, div_lt_div_iff₀ hdq (by positivity), one_mul]
    exact_mod_cast lt_of_le_of_lt (Nat.mul_le_mul_left n hlow) hfloor

/-- The magnitude is the power of ten just above the double. -/
theorem magnitude_bounds {b : Binary} (hm : b.mantissa ≠ 0) :
    10 ^ (b.magnitude - 1) ≤ b.value ∧ b.value < 10 ^ b.magnitude := by
  obtain ⟨hp, hq, -⟩ := b.ratio_spec 0
  have hvalue := b.steps_eq 0
  rw [steps, zpow_zero, div_one] at hvalue
  obtain ⟨n, hn⟩ : ∃ n, n = b.quarters * (b.ratio 0).1 := ⟨_, rfl⟩
  obtain ⟨d, hd⟩ : ∃ d, d = (b.ratio 0).2 := ⟨_, rfl⟩
  have hmagnitude : b.magnitude = if d ≤ n then (digitCount (n / d) : Int)
      else 1 - (digitCount ((d + n - 1) / n - 1) : Int) := by
    rw [hn, hd]
    rfl
  rw [← hn, ← hd] at hvalue
  have hdpos : 0 < d := hd ▸ hq
  have hnpos : 0 < n := by
    rw [hn, quarters]
    exact Nat.mul_pos (by omega) hp
  rw [hvalue, hmagnitude]
  split
  next h => exact bounds_of_le hdpos h
  next h => exact bounds_of_lt hnpos (Nat.lt_of_not_le h) rfl

/-- Only zero covers zero. -/
theorem not_covers_zero {b : Binary} (hm : b.mantissa ≠ 0) : ¬ b.Covers 0 := by
  intro h
  have hlower := h.mul_quarter_le
  have hpos := b.quarter_pos
  have hone : (1 : ℚ) ≤ b.mantissa := by exact_mod_cast Nat.pos_of_ne_zero hm
  nlinarith

/-- What is found on one of the grids that are tried has at most seventeen digits. -/
theorem le_of_nearestOn {b : Binary} (hm : b.mantissa ≠ 0) {tie : Tie} {grid : Int} {c : Nat}
    (hgrid : b.magnitude - 17 ≤ grid) (hlt : grid < b.magnitude)
    (h : b.nearestOn tie grid = some c) : c ≤ 10 ^ 17 := by
  have hten : (0 : ℚ) < 10 ^ grid := by positivity
  have hsteps : b.steps grid < 10 ^ 17 := by
    rw [steps, div_lt_iff₀ hten, ← zpow_natCast, ← zpow_add₀ (by norm_num)]
    refine lt_of_lt_of_le (magnitude_bounds hm).2 (zpow_le_zpow_right₀ (by norm_num) ?_)
    push_cast
    omega
  have hbelow : b.below grid < 10 ^ 17 := by
    have := lt_of_le_of_lt (b.below_bounds grid).1 hsteps
    exact_mod_cast this
  rcases (readsBack_of_nearestOn h).2 with rfl | rfl <;> omega

/-- **The shortest decimal is found, and rounds to the double.** -/
theorem exists_shortest {b : Binary} (hb : b.Canonical) (hm : b.mantissa ≠ 0) (tie : Tie) :
    ∃ c grid, b.shortest tie = (c, grid) ∧ b.Covers (c * 10 ^ grid) ∧ 0 < c ∧ c ≤ 10 ^ 17 ∧
      b.magnitude - 17 ≤ grid ∧ grid < b.magnitude := by
  have hlast : b.magnitude - 17 ∈ b.grids := by
    refine List.mem_map.mpr ⟨16, by decide, ?_⟩
    omega
  have hfine : 10 ^ 16 ≤ b.steps (b.magnitude - 17) := by
    rw [steps, le_div_iff₀ (by positivity), ← zpow_natCast, ← zpow_add₀ (by norm_num)]
    refine le_trans (le_of_eq ?_) (magnitude_bounds hm).1
    congr 1
    push_cast
    omega
  have hsome := isSome_nearestOn tie (readsBack_of_fine hb hfine)
  cases hfind : b.grids.findSome? fun grid => (b.nearestOn tie grid).map fun c => (c, grid) with
  | none =>
    have := List.findSome?_eq_none_iff.mp hfind _ hlast
    rw [Option.map_eq_none_iff] at this
    rw [this] at hsome
    exact absurd hsome (by decide)
  | some found =>
    obtain ⟨grid, hmem, hnearest⟩ := List.exists_of_findSome?_eq_some hfind
    obtain ⟨c, hc, rfl⟩ := Option.map_eq_some_iff.mp hnearest
    obtain ⟨i, hi, hgrid⟩ := List.mem_map.mp hmem
    have hi17 := List.mem_range.mp hi
    have hbounds : b.magnitude - 17 ≤ grid ∧ grid < b.magnitude := by omega
    have hcovers := (readsBack_iff b grid c).mp (readsBack_of_nearestOn hc).1
    refine ⟨c, grid, by rw [shortest, hfind]; rfl, hcovers, Nat.pos_of_ne_zero ?_,
      le_of_nearestOn hm hbounds.1 hbounds.2 hc, hbounds⟩
    rintro rfl
    exact not_covers_zero hm (by simpa using hcovers)

end Binary

end Abacus.Decimal
