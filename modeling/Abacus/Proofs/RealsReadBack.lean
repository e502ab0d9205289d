import Abacus.Proofs.FloatArithmetic
import Abacus.Proofs.WrittenNumbers

/-!
# What a written real is read as

The shortest decimal of a real rounds to that real, so a reader that rounds once would give
it back.  The reader of JSON rounds more often: it rounds the significand, it uses a power
of ten that is rounded itself, and it rounds the product or quotient of the two.  What it
arrives at is written out here as a formula over floats (`approximation`).

## Reading does not fail

The reader refuses numbers beyond the range of doubles.  Rounding on the way could push a
number over the edge that is not beyond it, and it takes a look at the errors to see that
it does not: three roundings change a number by less than four parts in `2 ^ 53`, so only
the two largest doubles could be affected, and for these the calculation is carried out.

## When the same real comes back

Nothing is lost if nothing had to be rounded on the way: the significand is a float itself
and the power of ten is too (`survives_of_readsExactly`).  In general the formula decides.
-/

namespace Abacus

open Decimal (Binary HasMagnitude IsNearest Numeral isNearest_div isNearest_mul isNearest_ofNat
  isNearest_ofScientific)

namespace Json

/-- A power of ten as a float. -/
def tenTo (k : Nat) : Float := Float.ofScientific 1 false k

/-- What the reader makes of `s` times ten to the power `k`.  It divides by one power of ten
at most as large as there are floats, and then by what is left. -/
def approximation (s : Nat) (k : Int) : Float :=
  if 0 ≤ k then Float.ofNat s * tenTo k.toNat
  else if -308 ≤ k then Float.ofNat s / tenTo (-k).toNat
  else Float.ofNat s / tenTo 308 / tenTo (-k - 308).toNat

/-! ## The parts of the calculation -/

theorem exists_tenTo {k : Nat} (hk : k ≤ 308) :
    ∃ p, HasMagnitude (tenTo k) p ∧ p.Covers (10 ^ k) ∧ 1 / 2 ≤ p.value := by
  have hnearest := isNearest_ofScientific 1 k (by omega)
  rw [Nat.cast_one, one_mul] at hnearest
  have hsmall : (10 : ℚ) ^ k < Binary.overflow := by
    have hmost : (10 : ℚ) ^ k ≤ 10 ^ 308 := pow_le_pow_right₀ (by norm_num) hk
    have hnat : 10 ^ 308 < (2 ^ 55 - 2) * 2 ^ 969 := by decide +kernel
    have hcast : (10 : ℚ) ^ 308 < ((2 ^ 55 - 2 : Nat) : ℚ) * 2 ^ 969 := by exact_mod_cast hnat
    refine lt_of_le_of_lt hmost (lt_of_lt_of_eq hcast ?_)
    rw [Binary.overflow, Binary.lastQuarter]
    norm_num
  obtain ⟨p, hp, hcovers⟩ := hnearest.exists_hasMagnitude hsmall
  have hone : (1 : ℚ) ≤ 10 ^ k := one_le_pow₀ (by norm_num)
  have herror := (hcovers.error hp.canonical hone).2
  refine ⟨p, hp, hcovers, ?_⟩
  linarith

theorem exists_ofNat {s : Nat} (hs : s < 2 ^ 64) :
    ∃ a, HasMagnitude (Float.ofNat s) a ∧ a.Covers s ∧ a.value ≤ 2 ^ 65 := by
  have hlt : (s : ℚ) < 2 ^ 64 := by exact_mod_cast hs
  have hsmall : (s : ℚ) < Binary.overflow := Binary.lt_overflow (by decide) hlt.le
  obtain ⟨a, ha, hcovers⟩ := (isNearest_ofNat s).exists_hasMagnitude hsmall
  have hle := hcovers.value_le
  refine ⟨a, ha, hcovers, ?_⟩
  linarith

/-- A quotient by a power of ten is at most four times as large as the dividend. -/
theorem exists_div_tenTo {f : Float} {b : Binary} (hf : HasMagnitude f b)
    (hb : b.value ≤ 2 ^ 100) {k : Nat} (hk : k ≤ 308) :
    ∃ c, HasMagnitude (f / tenTo k) c ∧ c.value ≤ 4 * b.value := by
  obtain ⟨p, hp, -, hhalf⟩ := exists_tenTo hk
  have hpos : 0 < p.value := by linarith
  have hne := Binary.mantissa_ne_zero hpos
  have hb0 : 0 ≤ b.value := by
    unfold Binary.value
    positivity
  have hquotient : b.value / p.value ≤ 2 * b.value := by
    rw [div_le_iff₀ hpos]
    nlinarith
  have hsmall : b.value / p.value < Binary.overflow :=
    Binary.lt_overflow (n := 101) (by decide) (by linarith)
  obtain ⟨c, hc, hcovers⟩ := (isNearest_div hf hp hne).exists_hasMagnitude hsmall
  have hle := hcovers.value_le
  exact ⟨c, hc, by linarith⟩

/-- Dividing never fails. -/
theorem exists_approximation_of_neg {s : Nat} {k : Int} (hs : s < 2 ^ 64) (hk : k < 0)
    (hleast : -616 ≤ k) : ∃ b, HasMagnitude (approximation s k) b := by
  obtain ⟨a, ha, -, hle⟩ := exists_ofNat hs
  have hbound : a.value ≤ 2 ^ 100 := by linarith
  unfold approximation
  rw [if_neg (by omega)]
  split
  next h =>
    obtain ⟨c, hc, -⟩ := exists_div_tenTo ha hbound (k := (-k).toNat) (by omega)
    exact ⟨c, hc⟩
  next h =>
    obtain ⟨c, hc, hle'⟩ := exists_div_tenTo ha hbound (k := 308) (by decide)
    have hbound' : c.value ≤ 2 ^ 100 := by linarith
    obtain ⟨d, hd, -⟩ := exists_div_tenTo hc hbound' (k := (-k - 308).toNat) (by omega)
    exact ⟨d, hd⟩

/-! ## The two largest doubles -/

/-- The two largest doubles with either sign. -/
def largest : List Double :=
  [⟨0x7fefffffffffffff⟩, ⟨0x7feffffffffffffe⟩, ⟨0xffefffffffffffff⟩, ⟨0xffeffffffffffffe⟩]

/-- The numerals of the largest doubles are not read as infinite. -/
theorem isFinite_approximation_largest : ∀ x ∈ largest,
    (approximation (realLayout.numeral x).significand (realLayout.numeral x).power).isFinite := by
  decide +kernel

theorem mem_largest {x : Double} (hx : x.isFinite)
    (hm : 2 ^ 53 - 2 ≤ (Binary.ofDouble x).mantissa) (he : 971 ≤ (Binary.ofDouble x).exponent) :
    x ∈ largest := by
  have hfinite : x.exponentField ≠ 2047 := by simpa [Double.isFinite] using hx
  have hfield := x.exponentField_lt
  have hfraction := x.fractionField_lt
  have hnormal : x.exponentField ≠ 0 := by
    intro hzero
    rw [Double.ofDouble_subnormal hzero] at he
    simp only at he
    omega
  rw [Double.ofDouble_normal hnormal] at hm he
  simp only at hm he
  have hbits := x.toNat_bits
  have hword : x.bits = 0x7fefffffffffffff ∨ x.bits = 0x7feffffffffffffe ∨
      x.bits = 0xffefffffffffffff ∨ x.bits = 0xffeffffffffffffe := by
    simp only [← UInt64.toNat_inj, UInt64.reduceToNat]
    split at hbits <;> omega
  obtain ⟨w⟩ := x
  rcases hword with h | h | h | h <;> simp only at h <;> rw [h] <;> simp [largest]

/-- What rounds to a double is not too large. -/
theorem le_overflow {b : Binary} (hb : b.Canonical) (he : b.exponent ≤ 971) {q : ℚ}
    (hcovers : b.Covers q) : q ≤ Binary.overflow := by
  have hpos := b.quarter_pos
  have hupper := hcovers.le_mul_quarter
  have hunit : b.quarter ≤ Binary.lastQuarter := by
    rw [Binary.quarter, Binary.lastQuarter, ← zpow_natCast]
    exact zpow_le_zpow_right₀ one_le_two (by push_cast; omega)
  have hm : (b.mantissa : ℚ) + 1 ≤ 2 ^ 53 := by exact_mod_cast hb.lt
  unfold Binary.overflow
  nlinarith

/-- What rounds to any other double keeps a distance to what is too large. -/
theorem le_of_not_mem_largest {x : Double} (hx : x.isFinite) (hlargest : x ∉ largest) {q : ℚ}
    (hcovers : (Binary.ofDouble x).Covers q) : q ≤ (2 ^ 55 - 10) * Binary.lastQuarter := by
  obtain ⟨hb, he⟩ := Double.canonical_ofDouble hx
  have hpos := (Binary.ofDouble x).quarter_pos
  have hupper := hcovers.le_mul_quarter
  rcases lt_or_eq_of_le he with hlt | heq
  · have hunit : 2 * (Binary.ofDouble x).quarter ≤ Binary.lastQuarter := by
      rw [Binary.quarter, mul_comm, ← zpow_add_one₀ two_ne_zero, Binary.lastQuarter, ← zpow_natCast]
      exact zpow_le_zpow_right₀ one_le_two (by push_cast; omega)
    have hm : ((Binary.ofDouble x).mantissa : ℚ) < 2 ^ 53 := by exact_mod_cast hb.lt
    nlinarith
  · have hunit : (Binary.ofDouble x).quarter = Binary.lastQuarter := by
      rw [Binary.quarter, heq, Binary.lastQuarter, ← zpow_natCast]
      rfl
    have hm : (Binary.ofDouble x).mantissa + 3 ≤ 2 ^ 53 := by
      have := mt (mem_largest hx · heq.ge) hlargest
      omega
    have hmq : ((Binary.ofDouble x).mantissa : ℚ) + 3 ≤ 2 ^ 53 := by exact_mod_cast hm
    rw [hunit] at hupper hpos
    nlinarith

/-- The power of ten of a decimal that rounds to a double is one there is a float for. -/
theorem power_le {s k : Nat} (hs : 1 ≤ s) (h : (s : ℚ) * 10 ^ k ≤ Binary.overflow) :
    k ≤ 308 := by
  refine le_of_not_gt fun hk => absurd h (not_le.mpr ?_)
  have hone : (1 : ℚ) ≤ s := by exact_mod_cast hs
  have hnat : (2 ^ 55 - 2) * 2 ^ 969 < 10 ^ 309 := by decide +kernel
  have hcast : ((2 ^ 55 - 2 : Nat) : ℚ) * 2 ^ 969 < 10 ^ 309 := by exact_mod_cast hnat
  calc Binary.overflow
      = ((2 ^ 55 - 2 : Nat) : ℚ) * 2 ^ 969 := by
        rw [Binary.overflow, Binary.lastQuarter]
        norm_num
    _ < 10 ^ 309 := hcast
    _ ≤ 10 ^ k := pow_le_pow_right₀ (by norm_num) hk
    _ ≤ s * 10 ^ k := le_mul_of_one_le_left (by positivity) hone

/-- **Multiplying does not fail for a decimal that rounds to a double.** -/
theorem exists_mul {x : Double} (hx : x.isFinite) (hlargest : x ∉ largest) {s k : Nat}
    (hs : 1 ≤ s) (hlt : s < 2 ^ 64) (hk : k ≤ 308)
    (hcovers : (Binary.ofDouble x).Covers (s * 10 ^ k)) :
    ∃ b, HasMagnitude (Float.ofNat s * tenTo k) b := by
  have hlast := Binary.lastQuarter_pos
  have hvalue := le_of_not_mem_largest hx hlargest hcovers
  obtain ⟨a, ha, hacovers, -⟩ := exists_ofNat hlt
  obtain ⟨p, hp, hpcovers, hhalf⟩ := exists_tenTo hk
  have hone : (1 : ℚ) ≤ 10 ^ k := one_le_pow₀ (by norm_num)
  have haerror := (hacovers.error ha.canonical (by exact_mod_cast hs)).1
  have hperror := (hpcovers.error hp.canonical hone).1
  -- Two factors are off by one part in `2 ^ 53` each.
  have hproduct : (2 ^ 53 - 1) * a.value * ((2 ^ 53 - 1) * p.value) ≤
      2 ^ 53 * s * (2 ^ 53 * 10 ^ k) :=
    mul_le_mul haerror hperror (by linarith) (by positivity)
  have hsmall : a.value * p.value < Binary.overflow := by
    unfold Binary.overflow
    nlinarith
  obtain ⟨b, hb, -⟩ := (isNearest_mul ha hp).exists_hasMagnitude hsmall
  exact ⟨b, hb⟩

/-! ## Scaling -/

theorem scale_of_natAbs_le (f : Float) {k : Int} (hk : k.natAbs ≤ 308) :
    scale f k = if (if 0 ≤ k then f * tenTo k.natAbs else f / tenTo k.natAbs).isFinite
      then some (if 0 ≤ k then f * tenTo k.natAbs else f / tenTo k.natAbs) else none := by
  rw [scale, if_pos hk]
  rfl

theorem scale_of_lt {f : Float} (hf : (f == 0) = false) {k : Int} (hk : k < -308) :
    scale f k = scale (f / tenTo 308) (k + 308) := by
  rw [scale, if_neg (by omega), hf, if_neg (by decide), if_neg (by omega)]
  rfl

theorem beq_zero_eq_false {f : Float} {b : Binary} (hf : HasMagnitude f b)
    (hb : b.mantissa ≠ 0) : (f == 0) = false := by
  have hbeq : (f == 0) = f.toModel.unpack.beq (.zero .positive) := rfl
  rw [hbeq, hf.unpack_eq, Binary.unpacked, dif_neg hb]
  rfl

/-- Scaling computes the approximation, if that is finite. -/
theorem scale_eq {s : Nat} {k : Int} (hs : s < 2 ^ 64) (hzero : s = 0 → -308 ≤ k)
    (hleast : -616 ≤ k) (hmost : k ≤ 308) (hfinite : (approximation s k).isFinite) :
    scale (Float.ofNat s) k = some (approximation s k) := by
  unfold approximation at hfinite ⊢
  by_cases hk : 0 ≤ k
  · have habs : k.natAbs = k.toNat := by omega
    rw [if_pos hk] at hfinite ⊢
    rw [scale_of_natAbs_le _ (by omega), if_pos hk, habs, if_pos hfinite]
  · have habs : k.natAbs = (-k).toNat := by omega
    rw [if_neg hk] at hfinite ⊢
    by_cases hpart : -308 ≤ k
    · rw [if_pos hpart] at hfinite ⊢
      rw [scale_of_natAbs_le _ (by omega), if_neg hk, habs, if_pos hfinite]
    · have habs' : (k + 308).natAbs = (-k - 308).toNat := by omega
      rw [if_neg hpart] at hfinite ⊢
      obtain ⟨a, ha, hcovers, -⟩ := exists_ofNat hs
      have hone : (1 : ℚ) ≤ s := by
        have : 1 ≤ s := by omega
        exact_mod_cast this
      have herror := (hcovers.error ha.canonical hone).2
      have hne : a.mantissa ≠ 0 := Binary.mantissa_ne_zero (by linarith)
      have hneg : ¬ 0 ≤ k + 308 := by omega
      rw [scale_of_lt (beq_zero_eq_false ha hne) (by omega), scale_of_natAbs_le _ (by omega),
        if_neg hneg, habs', if_pos hfinite]

/-- The powers of ten of decimals that round to doubles have a lower bound. -/
theorem le_power {b : Binary} (hb : b.Canonical) (hm : b.mantissa ≠ 0) {s : Nat} {k : Int}
    (hs : s < 2 ^ 64) (hcovers : b.Covers (s * 10 ^ k)) : -616 ≤ k := by
  refine le_of_not_gt fun hk => ?_
  have hlow : (1 : ℚ) ≤ b.low := by
    have hone : (1 : ℚ) ≤ b.mantissa := by exact_mod_cast Nat.pos_of_ne_zero hm
    have hend := b.le_cast_low
    linarith
  have hunit : (2 : ℚ) ^ (-1076 : Int) ≤ b.quarter :=
    zpow_le_zpow_right₀ one_le_two (by have := hb.least_le; omega)
  have hpower : (10 : ℚ) ^ k ≤ 10 ^ (-617 : Int) :=
    zpow_le_zpow_right₀ (by norm_num) (by omega)
  have hlt : (s : ℚ) < 2 ^ 64 := by exact_mod_cast hs
  have hnat : 2 ^ 64 * 2 ^ 1076 ≤ 10 ^ 617 := by decide +kernel
  have hcast : (2 : ℚ) ^ 64 * 2 ^ 1076 ≤ 10 ^ 617 := by exact_mod_cast hnat
  have hgap : (2 : ℚ) ^ 64 * 10 ^ (-617 : Int) ≤ 2 ^ (-1076 : Int) := by
    rw [zpow_neg, zpow_neg, zpow_ofNat, zpow_ofNat, ← div_eq_mul_inv, ← one_div,
      div_le_div_iff₀ (by positivity) (by positivity), one_mul]
    exact hcast
  have hpos : (0 : ℚ) < 10 ^ k := by positivity
  refine lt_irrefl ((2 : ℚ) ^ (-1076 : Int)) ?_
  calc (2 : ℚ) ^ (-1076 : Int)
      ≤ b.quarter := hunit
    _ ≤ b.low * b.quarter := le_mul_of_one_le_left b.quarter_pos.le hlow
    _ ≤ s * 10 ^ k := hcovers.low_mul_le
    _ < 2 ^ 64 * 10 ^ k := mul_lt_mul_of_pos_right hlt hpos
    _ ≤ 2 ^ 64 * 10 ^ (-617 : Int) := mul_le_mul_of_nonneg_left hpower (by positivity)
    _ ≤ 2 ^ (-1076 : Int) := hgap

/-- **A written real is read, and what is calculated is the approximation.** -/
theorem magnitude?_numeral {x : Double} (hx : x.isFinite) :
    magnitude? (realLayout.numeral x) = some
      (approximation (realLayout.numeral x).significand (realLayout.numeral x).power) ∧
    ∃ b, HasMagnitude
      (approximation (realLayout.numeral x).significand (realLayout.numeral x).power) b := by
  obtain ⟨hb, he⟩ := Double.canonical_ofDouble hx
  have hwrites := writes_numeral hx
  have hsmall := hwrites.small.significand_lt
  have hcovers := hwrites.covers
  have hlargest := isFinite_approximation_largest x
  rw [magnitude?_eq hwrites.small]
  rw [Numeral.value] at hcovers
  by_cases hm : (Binary.ofDouble x).mantissa = 0
  · obtain ⟨hs, hk⟩ := hwrites.zero hm
    rw [hs, hk]
    obtain ⟨b, hb0⟩ := exists_approximation_of_neg (s := 0) (k := -1) (by decide) (by decide)
      (by decide)
    exact ⟨scale_eq (by decide) (by decide) (by decide) (by decide) hb0.isFinite, b, hb0⟩
  generalize (realLayout.numeral x).significand = s at hsmall hcovers hlargest ⊢
  generalize (realLayout.numeral x).power = k at hcovers hlargest ⊢
  have hs : 1 ≤ s := by
    refine Nat.one_le_iff_ne_zero.mpr fun hzero => Binary.not_covers_zero hm ?_
    rw [hzero, Nat.cast_zero, zero_mul] at hcovers
    exact hcovers
  have hleast := le_power hb hm hsmall hcovers
  suffices h : k ≤ 308 ∧ ∃ b, HasMagnitude (approximation s k) b by
    obtain ⟨hmost, b, hbm⟩ := h
    exact ⟨scale_eq hsmall (fun hzero => by omega) hleast hmost hbm.isFinite, b, hbm⟩
  rcases lt_or_ge k 0 with hneg | hpos
  · exact ⟨by omega, exists_approximation_of_neg hsmall hneg hleast⟩
  · obtain ⟨n, rfl⟩ := Int.eq_ofNat_of_zero_le hpos
    rw [zpow_natCast] at hcovers
    have hmost := power_le hs (le_overflow hb he hcovers)
    refine ⟨by omega, ?_⟩
    have hformula : approximation s n = Float.ofNat s * tenTo n := by
      rw [approximation, if_pos hpos, Int.toNat_natCast]
    rw [hformula] at hlargest ⊢
    by_cases hmem : x ∈ largest
    · obtain ⟨a, ha, -⟩ := exists_ofNat hsmall
      obtain ⟨p, hp, -⟩ := exists_tenTo hmost
      obtain ⟨b, hbm, -⟩ := (isNearest_mul ha hp).exists_of_isFinite (hlargest hmem)
      exact ⟨b, hbm⟩
    · exact exists_mul hx hmem hs hsmall hmost hcovers

/-! ## What comes back -/

/-- What a real is after it has been written and read. -/
def reread (x : Double) : Double :=
  let n := realLayout.numeral x
  let y := Double.ofFloat (approximation n.significand n.power)
  if x.isNegative then y.negate else y

/-- **A finite real is read as a finite real.** -/
theorem number?_numeral {x : Double} (hx : x.isFinite) :
    number? (realLayout.numeral x) = some (.real (reread x)) ∧ (reread x).isFinite := by
  have hwrites := writes_numeral hx
  obtain ⟨hmagnitude, b, hb⟩ := magnitude?_numeral hx
  have hmarked : ¬ ((realLayout.numeral x).fraction.isEmpty &&
      (realLayout.numeral x).exponent.isNone) = true := by
    rw [Bool.and_eq_true, List.isEmpty_iff, Option.isNone_iff_eq_none]
    rcases hwrites.marked with h | h
    · exact fun h' => h h'.1
    · exact fun h' => h h'.2
  have hfinite : (Double.ofFloat (approximation (realLayout.numeral x).significand
      (realLayout.numeral x).power)).isFinite := by
    rw [Double.isFinite_ofFloat, hb.isFinite]
  constructor
  · rw [number?, if_neg hmarked, real?, hmagnitude, Option.map_some, hwrites.sign]
    unfold reread
    cases x.isNegative with
    | false => rfl
    | true => simp only [if_true, Double.ofFloat_neg hb.isFinite]
  · unfold reread
    cases x.isNegative with
    | false => exact hfinite
    | true =>
      rw [if_pos rfl, Double.isFinite_negate]
      exact hfinite

/-- The sign is kept, also that of zero. -/
theorem isNegative_reread {x : Double} (hx : x.isFinite) :
    (reread x).isNegative = x.isNegative := by
  obtain ⟨-, b, hb⟩ := magnitude?_numeral hx
  unfold reread
  cases hsign : x.isNegative with
  | false => exact hb.isNegative
  | true =>
    show (Double.ofFloat _).negate.isNegative = true
    rw [Double.isNegative_negate, hb.isNegative]
    rfl

/-- **When a real is the same again**: the calculation from its shortest decimal arrives at
its magnitude. -/
def Survives (x : Double) : Prop :=
  let n := realLayout.numeral x
  Double.ofFloat (approximation n.significand n.power) = x.abs

instance (x : Double) : Decidable (Survives x) :=
  inferInstanceAs (Decidable (_ = _))

theorem reread_eq_self_iff (x : Double) : reread x = x ↔ Survives x := by
  unfold reread Survives
  rw [Double.abs_eq]
  cases x.isNegative with
  | false => exact Iff.rfl
  | true =>
    simp only [if_true]
    constructor
    · intro h
      exact (Double.negate_negate _).symm.trans (congrArg Double.negate h)
    · intro h
      exact (congrArg Double.negate h).trans (Double.negate_negate x)

/-- The significand of the numeral is a float and the power of ten is, up to its sign. -/
def ReadsExactly (x : Double) : Prop :=
  let n := realLayout.numeral x
  n.significand < 2 ^ 53 ∧ n.power.natAbs ≤ 22

instance (x : Double) : Decidable (ReadsExactly x) :=
  inferInstanceAs (Decidable (_ ∧ _))

/-- The powers of ten up to the 22nd are floats. -/
theorem value_tenTo {k : Nat} (hk : k ≤ 22) {p : Binary} (hp : HasMagnitude (tenTo k) p)
    (hcovers : p.Covers (10 ^ k)) : p.value = 10 ^ k := by
  have hfactors : (10 : ℚ) ^ k = ((5 ^ k : Nat) : ℚ) * 2 ^ (k : Int) := by
    rw [zpow_natCast, Nat.cast_pow, ← mul_pow]
    norm_num
  have hfive : 5 ^ k < 2 ^ 53 := lt_of_le_of_lt (Nat.pow_le_pow_right (by decide) hk) (by decide)
  rw [hfactors] at hcovers ⊢
  exact hcovers.value_eq hp.canonical hfive (by omega)

/-- **Where nothing has to be rounded, nothing is lost.** -/
theorem survives_of_readsExactly {x : Double} (hx : x.isFinite) (h : ReadsExactly x) :
    Survives x := by
  obtain ⟨hs, hk⟩ := h
  have hcovers := (writes_numeral hx).covers
  rw [Numeral.value] at hcovers
  unfold Survives
  simp only
  generalize (realLayout.numeral x).significand = s at hs hcovers ⊢
  generalize (realLayout.numeral x).power = k at hk hcovers ⊢
  obtain ⟨a, ha, hacovers, -⟩ := exists_ofNat (s := s) (by omega)
  obtain ⟨p, hp, hpcovers, hhalf⟩ := exists_tenTo (k := k.natAbs) (by omega)
  have hten := value_tenTo hk hp hpcovers
  have hinteger : a.value = s := by
    have := Binary.Covers.value_eq ha.canonical hs (k := 0) (by decide) (by simpa using hacovers)
    simpa using this
  have hnearest : IsNearest (approximation s k) (s * 10 ^ k) := by
    unfold approximation
    rcases lt_or_ge k 0 with hneg | hpos
    · have hne : p.mantissa ≠ 0 := Binary.mantissa_ne_zero (by linarith)
      have hnat : k = -(k.natAbs : Int) := by omega
      have hdiv := isNearest_div ha hp hne
      rw [hinteger, hten, div_eq_mul_inv, ← zpow_natCast, ← zpow_neg, ← hnat] at hdiv
      rw [if_neg (by omega), if_pos (by omega), show (-k).toNat = k.natAbs by omega]
      exact hdiv
    · have hmul := isNearest_mul ha hp
      rw [hinteger, hten, ← zpow_natCast, show (k.natAbs : Int) = k by omega] at hmul
      rw [if_pos hpos, show k.toNat = k.natAbs by omega]
      exact hmul
  exact (hnearest.hasMagnitude hx hcovers).ofFloat_eq_abs hx

end Json

end Abacus
