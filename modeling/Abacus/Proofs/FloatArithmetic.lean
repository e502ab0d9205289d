import Abacus.Proofs.Rounding

/-!
# The arithmetic of floats

Every operation on floats is the exact operation followed by rounding.  This module says
so for the operations by which a real is put together from its decimal digits: forming a
float from a natural number or from a power of ten, multiplying, and dividing.  None of
the numbers is negative; the sign of a decimal is put in front at the end.

A float that is the nearest one to a number (`IsNearest`) is one of two things.  Either
its unit fits into a word, and it is the finite number that was rounded to, or the unit
is too large, and it is infinite.
-/

namespace Abacus.Decimal

open Float.Model (Format totalExponent)
open Float.Model.UnpackedFloat (Accuracy Sign accuracyOfFraction decreaseExponent divCore
  roundWithAccuracy)

/-- The float is finite and not negative, and this is its magnitude. -/
structure HasMagnitude (f : Float) (b : Binary) : Prop where
  canonical : b.Canonical
  exponent_le : b.exponent ≤ 971
  ofFloat_eq : Double.ofFloat f = Double.ofUnpacked (b.unpacked .positive)

/-- The float is what a number that is not negative is rounded to. -/
def IsNearest (f : Float) (q : ℚ) : Prop :=
  ∃ b : Binary, b.Canonical ∧ b.Covers q ∧
    Double.ofFloat f = Double.ofUnpacked (b.unpacked .positive)

/-- The magnitude zero. -/
def zeroMagnitude : Binary := ⟨0, -1074, false⟩

theorem canonical_zero : zeroMagnitude.Canonical :=
  ⟨by decide, by decide, .inr rfl, by decide⟩

theorem covers_zero : zeroMagnitude.Covers 0 := by
  have h : (0 : ℚ) * 2 ^ zeroMagnitude.exponent = 0 := zero_mul _
  rw [← h]
  refine Binary.covers_of_near le_rfl ?_ ?_ ?_ ?_ <;> simp [zeroMagnitude]

/-- What is at most half of the least unit is rounded to zero. -/
theorem covers_zero_of_le {y : ℚ} (hy : 0 ≤ y) (h : y ≤ 2 ^ (-1075 : Int)) :
    zeroMagnitude.Covers y := by
  obtain ⟨z, hz⟩ : ∃ z, z = y * 2 ^ (1074 : Int) := ⟨_, rfl⟩
  have hunit : y = z * 2 ^ zeroMagnitude.exponent := by
    rw [hz, mul_assoc, ← zpow_add₀ two_ne_zero]
    simp [zeroMagnitude]
  have hhalf : z ≤ 1 / 2 := by
    calc z ≤ 2 ^ (-1075 : Int) * 2 ^ (1074 : Int) :=
          hz ▸ mul_le_mul_of_nonneg_right h (by positivity)
      _ = 1 / 2 := by rw [← zpow_add₀ two_ne_zero]; norm_num
  have hpos : 0 ≤ z := hz ▸ by positivity
  rw [hunit]
  refine Binary.covers_of_near hpos (fun hclose => absurd hclose (by decide)) ?_ ?_
    (fun hodd => absurd hodd (by decide)) <;>
  · simp only [zeroMagnitude, Nat.cast_zero]
    linarith only [hpos, hhalf]

/-- The float that is zero is the nearest one to zero. -/
theorem isNearest_zero {f : Float} (hf : Double.ofFloat f = Double.ofUnpacked (.zero .positive)) :
    IsNearest f 0 :=
  ⟨zeroMagnitude, canonical_zero, covers_zero, hf⟩

theorem HasMagnitude.isFinite {f : Float} {b : Binary} (h : HasMagnitude f b) : f.isFinite := by
  obtain ⟨-, hfinite, -⟩ := Double.magnitude_ofUnpacked h.canonical h.exponent_le .positive
  rw [← Double.isFinite_ofFloat, h.ofFloat_eq, hfinite]

theorem HasMagnitude.unpack_eq {f : Float} {b : Binary} (h : HasMagnitude f b) :
    f.toModel.unpack = b.unpacked .positive := by
  obtain ⟨hsign, -, hmagnitude⟩ :=
    Double.magnitude_ofUnpacked h.canonical h.exponent_le .positive
  rw [Double.unpack_of_isFinite h.isFinite, h.ofFloat_eq, hsign, hmagnitude]

theorem HasMagnitude.isNegative {f : Float} {b : Binary} (h : HasMagnitude f b) :
    (Double.ofFloat f).isNegative = false := by
  obtain ⟨hsign, -, -⟩ := Double.magnitude_ofUnpacked h.canonical h.exponent_le .positive
  rw [h.ofFloat_eq, Bool.eq_false_iff]
  intro hnegative
  rw [Double.sign, if_pos hnegative] at hsign
  cases hsign

/-! ## Rounding an exact result -/

theorem isNearest_roundWithAccuracy {f : Float} {m : Nat} {e : Int} {a : Accuracy} {y : ℚ}
    (hf : Double.ofFloat f =
      Double.ofUnpacked (roundWithAccuracy Format.binary64 .positive m e a))
    (h : Describes m y a) (hlong : 52 ≤ m.log2 ∨ e ≤ -1074) : IsNearest f (y * 2 ^ e) := by
  obtain ⟨b, hb, hround, hcovers⟩ := exists_covers_roundWithAccuracy h hlong .positive
  exact ⟨b, hb, hcovers, by rw [hf, hround]⟩

/-- A product is short only if both factors are subnormal. -/
theorem two_pow_le_mul {b c : Binary} (hb : b.Canonical) (hc : c.Canonical) (hb0 : b.mantissa ≠ 0)
    (hc0 : c.mantissa ≠ 0) (h : ¬ (b.exponent = -1074 ∧ c.exponent = -1074)) :
    2 ^ 52 ≤ b.mantissa * c.mantissa := by
  rcases hb.long with hlong | hleast
  · exact le_trans hlong (Nat.le_mul_of_pos_right _ (Nat.pos_of_ne_zero hc0))
  · rcases hc.long with hlong | hleast'
    · exact le_trans hlong (Nat.le_mul_of_pos_left _ (Nat.pos_of_ne_zero hb0))
    · exact absurd ⟨hleast, hleast'⟩ h

/-- **A product is rounded once.** -/
theorem isNearest_mul {f g : Float} {b c : Binary} (hf : HasMagnitude f b)
    (hg : HasMagnitude g c) : IsNearest (f * g) (b.value * c.value) := by
  have hmul : Double.ofFloat (f * g) = Double.ofUnpacked
      (Float.Model.UnpackedFloat.mul Format.binary64 f.toModel.unpack g.toModel.unpack) := rfl
  rw [hf.unpack_eq, hg.unpack_eq] at hmul
  unfold Binary.unpacked at hmul
  by_cases hb : b.mantissa = 0
  · have hzero : b.value * c.value = 0 := by simp [Binary.value, hb]
    rw [dif_pos hb] at hmul
    rw [hzero]
    refine isNearest_zero (hmul.trans ?_)
    by_cases hc : c.mantissa = 0
    · rw [dif_pos hc]
      rfl
    · rw [dif_neg hc]
      rfl
  by_cases hc : c.mantissa = 0
  · have hzero : b.value * c.value = 0 := by simp [Binary.value, hc]
    rw [dif_neg hb, dif_pos hc] at hmul
    rw [hzero]
    exact isNearest_zero hmul
  · rw [dif_neg hb, dif_neg hc] at hmul
    have hvalue : b.value * c.value =
        ((b.mantissa * c.mantissa : Nat) : ℚ) * 2 ^ (b.exponent + c.exponent) := by
      rw [Binary.value, Binary.value, zpow_add₀ two_ne_zero]
      push_cast
      ring
    rw [hvalue]
    refine isNearest_roundWithAccuracy (a := .exact) hmul rfl ?_
    by_cases hunits : b.exponent = -1074 ∧ c.exponent = -1074
    · right
      omega
    · left
      exact (Nat.le_log2 (Nat.mul_ne_zero hb hc)).mpr
        (two_pow_le_mul hf.canonical hg.canonical hb hc hunits)

/-- Where a fraction below one lies. -/
theorem describes_accuracyOfFraction {n d : Nat} (hd : 0 < d) :
    Describes (n / d) (n / d : ℚ) (accuracyOfFraction (n % d) d) := by
  have hdq : (0 : ℚ) < d := by exact_mod_cast hd
  have hsplit : (n : ℚ) / d = (n / d : Nat) + (n % d : Nat) / d := by
    rw [eq_comm, ← mul_right_inj' hdq.ne']
    field_simp
    exact_mod_cast Nat.div_add_mod n d
  have hrest : ((n % d : Nat) : ℚ) / d < 1 := by
    rw [div_lt_one hdq]
    exact_mod_cast Nat.mod_lt n hd
  unfold accuracyOfFraction
  split
  next h =>
    rw [hsplit, h]
    simp [Describes]
  next h =>
    have hpos : (0 : ℚ) < (n % d : Nat) / d :=
      div_pos (by exact_mod_cast Nat.pos_of_ne_zero h) hdq
    rw [hsplit]
    cases hcompare : compare (2 * (n % d)) d with
    | lt =>
      have hlt : ((n % d : Nat) : ℚ) / d < 1 / 2 := by
        rw [div_lt_div_iff₀ hdq two_pos]
        have := Nat.compare_eq_lt.mp hcompare
        exact_mod_cast (by omega : n % d * 2 < 1 * d)
      exact ⟨by linarith, by linarith⟩
    | eq =>
      have heq : ((n % d : Nat) : ℚ) / d = 1 / 2 := by
        rw [div_eq_div_iff hdq.ne' two_ne_zero]
        have := Nat.compare_eq_eq.mp hcompare
        exact_mod_cast (by omega : n % d * 2 = 1 * d)
      rw [heq]
      rfl
    | gt =>
      have hgt : (1 : ℚ) / 2 < (n % d : Nat) / d := by
        rw [div_lt_div_iff₀ two_pos hdq]
        have := Nat.compare_eq_gt.mp hcompare
        exact_mod_cast (by omega : 1 * d < n % d * 2)
      exact ⟨by linarith, by linarith⟩

/-- A quotient is long if the dividend has been shifted far enough. -/
theorem two_pow_le_quotient {m n k : Nat} (hm : 0 < m) (hn : 0 < n)
    (h : n.log2 + 1 + 52 ≤ m.log2 + k) : 2 ^ 52 ≤ m * 2 ^ k / n := by
  refine (Nat.le_div_iff_mul_le hn).mpr ?_
  calc 2 ^ 52 * n
      ≤ 2 ^ 52 * 2 ^ (n.log2 + 1) := Nat.mul_le_mul_left _ Nat.lt_log2_self.le
    _ = 2 ^ (n.log2 + 1 + 52) := by rw [← Nat.pow_add, Nat.add_comm]
    _ ≤ 2 ^ (m.log2 + k) := Nat.pow_le_pow_right (by decide) h
    _ = 2 ^ m.log2 * 2 ^ k := Nat.pow_add ..
    _ ≤ m * 2 ^ k := Nat.mul_le_mul_right _ (Nat.log2_self_le hm.ne')

/-- The quotient of two finite numbers is rounded once. -/
theorem isNearest_quotient {f : Float} {m n : Nat} {d e : Int} (hm : 0 < m) (hn : 0 < n)
    (hf : Double.ofFloat f = Double.ofUnpacked (Float.Model.UnpackedFloat.div Format.binary64
      (.finite .positive m d hm) (.finite .positive n e hn))) :
    IsNearest f (m * 2 ^ d / (n * 2 ^ e)) := by
  -- The dividend is shifted far enough for the quotient to be long.
  obtain ⟨t, ht⟩ : ∃ t : Int, t = min (d - e)
      (max (m.log2 + d - (n.log2 + e) - 53) (-1074)) := ⟨_, rfl⟩
  obtain ⟨k, hk⟩ : ∃ k : Nat, k = (d - e - t).toNat := ⟨_, rfl⟩
  have htarget : Format.binary64.targetExponent (totalExponent m d - totalExponent n e) =
      max (m.log2 + d - (n.log2 + e) - 53) (-1074) := by
    rw [targetExponent_binary64, totalExponent, totalExponent]
    omega
  have hcore : divCore Format.binary64 m d n e =
      (m * 2 ^ k / n, t, accuracyOfFraction (m * 2 ^ k % n) n) := by
    simp only [divCore, htarget, ← ht, ← hk, Nat.shiftLeft_eq]
  have hvalue : (m * 2 ^ d / (n * 2 ^ e) : ℚ) = ((m * 2 ^ k : Nat) / n : ℚ) * 2 ^ t := by
    have hnq : (n : ℚ) ≠ 0 := by exact_mod_cast hn.ne'
    have hunits : d = k + t + e := by omega
    rw [hunits, zpow_add₀ two_ne_zero, zpow_add₀ two_ne_zero, zpow_natCast]
    push_cast
    field_simp
  unfold Float.Model.UnpackedFloat.div at hf
  dsimp only at hf
  rw [hcore] at hf
  rw [hvalue]
  refine isNearest_roundWithAccuracy hf (describes_accuracyOfFraction hn) ?_
  by_cases hleast : t ≤ -1074
  · exact .inr hleast
  · left
    have hlong := two_pow_le_quotient (k := k) hm hn (by omega)
    exact (Nat.le_log2 (by omega)).mpr hlong

/-- **A quotient is rounded once.** -/
theorem isNearest_div {f g : Float} {b c : Binary} (hf : HasMagnitude f b)
    (hg : HasMagnitude g c) (hc : c.mantissa ≠ 0) : IsNearest (f / g) (b.value / c.value) := by
  have hdiv : Double.ofFloat (f / g) = Double.ofUnpacked
      (Float.Model.UnpackedFloat.div Format.binary64 f.toModel.unpack g.toModel.unpack) := rfl
  rw [hf.unpack_eq, hg.unpack_eq] at hdiv
  unfold Binary.unpacked at hdiv
  rw [dif_neg hc] at hdiv
  by_cases hb : b.mantissa = 0
  · have hzero : b.value / c.value = 0 := by simp [Binary.value, hb]
    rw [dif_pos hb] at hdiv
    rw [hzero]
    exact isNearest_zero hdiv
  · rw [dif_neg hb] at hdiv
    exact isNearest_quotient (Nat.pos_of_ne_zero hb) (Nat.pos_of_ne_zero hc) hdiv

/-! ## Natural numbers and powers of ten -/

theorem isNearest_round {f : Float} {m : Nat} {e : Int} (hm : m ≠ 0)
    (hf : Double.ofFloat f =
      Double.ofUnpacked (Float.Model.UnpackedFloat.round Format.binary64 .positive m e)) :
    IsNearest f (m * 2 ^ e) := by
  -- The mantissa gains `n` zeros, if it is short.
  obtain ⟨n, hn⟩ : ∃ n : Nat, n = (e - max ((m.log2 : Int) + e - 52) (-1074)).toNat := ⟨_, rfl⟩
  simp only [Float.Model.UnpackedFloat.round, targetExponent_eq, decreaseExponent, ← hn,
    Nat.shiftLeft_eq] at hf
  have hvalue : (m : ℚ) * 2 ^ e = ((m * 2 ^ n : Nat) : ℚ) * 2 ^ (e - n) := by
    rw [zpow_sub₀ two_ne_zero, zpow_natCast]
    push_cast
    field_simp
  rw [hvalue]
  refine isNearest_roundWithAccuracy (a := .exact) hf rfl ?_
  have hbits : m.log2 + n ≤ (m * 2 ^ n).log2 := by
    rw [Nat.le_log2 (by positivity), Nat.pow_add]
    exact Nat.mul_le_mul_right _ (Nat.log2_self_le hm)
  omega

/-- What is nearest to a number that is not too large is finite. -/
theorem IsNearest.exists_hasMagnitude {f : Float} {q : ℚ} (h : IsNearest f q)
    (hq : q < Binary.overflow) : ∃ b, HasMagnitude f b ∧ b.Covers q := by
  obtain ⟨b, hb, hcovers, hf⟩ := h
  exact ⟨b, ⟨hb, hcovers.exponent_le hb hq, hf⟩, hcovers⟩

/-- So is what is nearest to a number and is known to be finite. -/
theorem IsNearest.exists_of_isFinite {f : Float} {q : ℚ} (h : IsNearest f q)
    (hf : f.isFinite) : ∃ b, HasMagnitude f b ∧ b.Covers q := by
  obtain ⟨b, hb, hcovers, heq⟩ := h
  refine ⟨b, ⟨hb, le_of_not_gt fun he => ?_, heq⟩, hcovers⟩
  have hinfinite := Double.isFinite_ofUnpacked_of_lt hb he .positive
  rw [← heq, Double.isFinite_ofFloat, hf] at hinfinite
  exact absurd hinfinite (by decide)

/-- A word is rounded to the nearest float. -/
theorem isNearest_toFloat (w : UInt64) : IsNearest w.toFloat w.toNat := by
  have hfloat : Double.ofFloat w.toFloat =
      Double.ofUnpacked
        (Float.Model.UnpackedFloat.normalize Format.binary64 w.toNat 0 .positive) := rfl
  unfold Float.Model.UnpackedFloat.normalize at hfloat
  by_cases hzero : w.toNat = 0
  · rw [hzero] at hfloat ⊢
    rw [Nat.cast_zero]
    exact isNearest_zero hfloat
  · have hpos : compare (w.toNat : Int) 0 = .gt := by
      rw [Int.compare_eq_gt]
      omega
    rw [hpos] at hfloat
    simpa using isNearest_round hzero hfloat

/-- A word that fits into a mantissa is a float itself. -/
theorem hasMagnitude_toFloat (w : UInt64) (hw : w.toNat < 2 ^ 53) :
    ∃ b, HasMagnitude w.toFloat b ∧ b.value = w.toNat := by
  have hsmall : (w.toNat : ℚ) ≤ 2 ^ 53 := by exact_mod_cast hw.le
  obtain ⟨b, hb, hcovers⟩ := (isNearest_toFloat w).exists_hasMagnitude
    (Binary.lt_overflow (by decide) hsmall)
  have hvalue := Binary.Covers.value_eq hb.canonical hw (k := 0) (by decide)
    (by simpa using hcovers)
  exact ⟨b, hb, by simpa using hvalue⟩

/-- A finite float without a minus sign has the magnitude of its double. -/
theorem hasMagnitude_ofDouble {f : Float} (hfinite : (Double.ofFloat f).isFinite)
    (hsign : (Double.ofFloat f).isNegative = false) :
    HasMagnitude f (Binary.ofDouble (Double.ofFloat f)) := by
  obtain ⟨hcanonical, he⟩ := Double.canonical_ofDouble hfinite
  have hpositive : (Double.ofFloat f).sign = .positive := by simp [Double.sign, hsign]
  exact ⟨hcanonical, he, by rw [← hpositive, Double.ofUnpacked_unpacked hfinite]⟩

/-- **What is nearest to a decimal that rounds to a double is the double**, up to its sign. -/
theorem IsNearest.hasMagnitude {f : Float} {q : ℚ} (h : IsNearest f q) {x : Double}
    (hx : x.isFinite) (hq : (Binary.ofDouble x).Covers q) :
    HasMagnitude f (Binary.ofDouble x) := by
  obtain ⟨hcanonical, he⟩ := Double.canonical_ofDouble hx
  obtain ⟨b, hb, hcovers, hf⟩ := h
  obtain rfl := hcovers.unique hb hcanonical hq
  exact ⟨hb, he, hf⟩

theorem HasMagnitude.ofFloat_eq_abs {f : Float} {x : Double}
    (h : HasMagnitude f (Binary.ofDouble x)) (hx : x.isFinite) : Double.ofFloat f = x.abs := by
  have hsign : x.abs.sign = .positive := by rw [Double.sign, Double.isNegative_abs]; rfl
  rw [h.ofFloat_eq, ← Double.ofDouble_abs, ← hsign, Double.ofUnpacked_unpacked]
  rw [Double.isFinite_abs, hx]

/-- With the sign it is the double. -/
theorem HasMagnitude.ofFloat_signed {f : Float} {x : Double}
    (h : HasMagnitude f (Binary.ofDouble x)) (hx : x.isFinite) :
    Double.ofFloat (if x.isNegative then -f else f) = x := by
  have habs := h.ofFloat_eq_abs hx
  rw [Double.abs_eq] at habs
  cases hsign : x.isNegative with
  | false =>
    rw [if_neg (by decide)]
    rwa [hsign, if_neg (by decide)] at habs
  | true =>
    rw [if_pos rfl, Double.ofFloat_neg h.isFinite, habs, hsign, if_pos rfl, Double.negate_negate]

/-- Whether the magnitude is this natural number. -/
def Binary.isNat (b : Binary) (n : Nat) : Bool :=
  b.mantissa * 2 ^ b.exponent.toNat == n * 2 ^ (-b.exponent).toNat

theorem Binary.value_of_isNat {b : Binary} {n : Nat} (h : b.isNat n) : b.value = n := by
  have hnat : b.mantissa * 2 ^ b.exponent.toNat = n * 2 ^ (-b.exponent).toNat := by
    simpa [isNat] using h
  have hcast : (b.mantissa : ℚ) * 2 ^ b.exponent.toNat = n * 2 ^ (-b.exponent).toNat := by
    exact_mod_cast hnat
  have hunit : b.exponent = b.exponent.toNat - (-b.exponent).toNat := by omega
  rw [value, hunit, zpow_sub₀ two_ne_zero, zpow_natCast, zpow_natCast, mul_div_assoc', hcast]
  field_simp

/-- The table holds the powers of ten that are floats themselves. -/
theorem table_isNat : ∀ e : Fin 23,
    let power := Double.ofFloat (getElem Float.exactlyRepresentablePowersOfTen e.val e.isLt)
    power.isFinite ∧ power.isNegative = false ∧ (Binary.ofDouble power).isNat (10 ^ e.val) := by
  decide +kernel

/-- A natural number that fits into a mantissa is a float itself. -/
theorem hasMagnitude_toUInt64 {n : Nat} (hn : n < 2 ^ 53) :
    ∃ b, HasMagnitude n.toUInt64.toFloat b ∧ b.value = n := by
  have hword : n.toUInt64.toNat = n := Nat.mod_eq_of_lt (by omega)
  obtain ⟨b, hb, hvalue⟩ := hasMagnitude_toFloat n.toUInt64 (hword.symm ▸ hn)
  exact ⟨b, hb, by rw [hvalue, hword]⟩

/-- So is a power of ten from the table. -/
theorem hasMagnitude_table {e : Nat} (he : e < 23) :
    ∃ b, HasMagnitude (getElem Float.exactlyRepresentablePowersOfTen e he) b ∧
      b.value = 10 ^ e := by
  obtain ⟨hfinite, hsign, hpower⟩ := table_isNat ⟨e, he⟩
  refine ⟨_, hasMagnitude_ofDouble hfinite hsign, ?_⟩
  rw [Binary.value_of_isNat hpower, Nat.cast_pow, Nat.cast_ofNat]

/-- A fraction is small if its denominator has many more digits than its numerator. -/
theorem div_ten_pow_le {n e : Nat} (h : 2048 + n.log2 < e) :
    (n : ℚ) / 10 ^ e ≤ 2 ^ (-1075 : Int) := by
  have hn : (n : ℚ) ≤ 2 ^ (n.log2 + 1) := by exact_mod_cast Nat.lt_log2_self.le
  have hten : (2 : ℚ) ^ (n.log2 + 1) * 2 ^ 1075 ≤ 10 ^ e := by
    calc (2 : ℚ) ^ (n.log2 + 1) * 2 ^ 1075 = 2 ^ (n.log2 + 1 + 1075) := (pow_add ..).symm
      _ ≤ 2 ^ e := pow_le_pow_right₀ one_le_two (by omega)
      _ ≤ 10 ^ e := pow_le_pow_left₀ zero_le_two (by norm_num) e
  have hdenominator : (0 : ℚ) < 10 ^ e := by positivity
  rw [zpow_neg, div_le_iff₀ hdenominator, show (1075 : Int) = ((1075 : Nat) : Int) by rfl,
    zpow_natCast, inv_mul_eq_div, le_div_iff₀ (by positivity)]
  exact le_trans (mul_le_mul_of_nonneg_right hn (by positivity)) hten

/-- A natural number is lengthened by a whole mantissa before it is multiplied. -/
theorem isNearest_mul_ten_pow {f : Float} {n e : Nat} (hn : n ≠ 0)
    (hf : Double.ofFloat f = Double.ofUnpacked
      (roundWithAccuracy Format.binary64 .positive (n * 2 ^ 53 * 10 ^ e) (-53) .exact)) :
    IsNearest f (n * 10 ^ e) := by
  have hvalue : (n : ℚ) * 10 ^ e = ((n * 2 ^ 53 * 10 ^ e : Nat) : ℚ) * 2 ^ (-53 : Int) := by
    rw [zpow_neg, show (53 : Int) = ((53 : Nat) : Int) by rfl, zpow_natCast]
    push_cast
    field_simp
    norm_num
  rw [hvalue]
  refine isNearest_roundWithAccuracy (a := .exact) hf rfl (.inl ?_)
  have hten : 0 < 10 ^ e := Nat.pow_pos (by decide)
  have hlong : 2 ^ 53 ≤ n * 2 ^ 53 * 10 ^ e :=
    le_trans (Nat.le_mul_of_pos_left _ (Nat.pos_of_ne_zero hn)) (Nat.le_mul_of_pos_right _ hten)
  rw [Nat.le_log2 (by positivity)]
  omega

/-- What is calculated with digits is rounded to the nearest float, if it is not beyond all
floats by far. -/
theorem isNearest_digits {f : Float} {n : Nat} {e : Int} (he : e ≤ 2048)
    (hf : Double.ofFloat f =
      Double.ofUnpacked (Float.Model.UnpackedFloat.ofScientific Format.binary64 n e)) :
    IsNearest f (n * 10 ^ e) := by
  have hbound : (2 : Int) ^ Format.binary64.exponentBits = 2048 := rfl
  unfold Float.Model.UnpackedFloat.ofScientific at hf
  by_cases hn : n = 0
  · rw [dif_pos hn] at hf
    have hvalue : (n : ℚ) * 10 ^ e = 0 := by rw [hn, Nat.cast_zero, zero_mul]
    rw [hvalue]
    exact isNearest_zero hf
  rw [dif_neg hn, hbound, if_neg (by omega)] at hf
  by_cases hsign : 0 ≤ e
  · obtain ⟨k, rfl⟩ := Int.eq_ofNat_of_zero_le hsign
    rw [if_neg (by omega), if_pos hsign] at hf
    rw [zpow_natCast]
    refine isNearest_mul_ten_pow hn (hf.trans ?_)
    rw [← Nat.shiftLeft_eq]
    rfl
  · obtain ⟨k, rfl⟩ : ∃ k : Nat, e = -k := ⟨(-e).toNat, by omega⟩
    have hvalue : (n : ℚ) * 10 ^ (-k : Int) = n / 10 ^ k := by
      rw [zpow_neg, zpow_natCast, div_eq_mul_inv]
    rw [hvalue]
    by_cases hsmall : (-k : Int) < -(2048 + (n.log2 : Int))
    · rw [if_pos hsmall] at hf
      have hle := div_ten_pow_le (n := n) (e := k) (by omega)
      exact ⟨zeroMagnitude, canonical_zero, covers_zero_of_le (by positivity) hle, hf⟩
    · rw [if_neg hsmall, if_neg hsign] at hf
      have hexponent : (- -(k : Int)).toNat = k := by omega
      have hquotient := isNearest_quotient _ _ hf
      rw [hexponent, zpow_zero, mul_one, mul_one] at hquotient
      push_cast at hquotient
      exact hquotient

/-- **A decimal without a point is rounded to the nearest float.** -/
theorem isNearest_ofScientific (n e : Nat) (he : e ≤ 2048) :
    IsNearest (Float.ofScientific n false e) (n * 10 ^ e) := by
  unfold Float.ofScientific
  split
  next h =>
    -- Both factors are floats, so only the product is rounded.
    obtain ⟨b, hn, hb⟩ := hasMagnitude_toUInt64 h.1
    obtain ⟨c, hten, hc⟩ := hasMagnitude_table (Nat.lt_succ_of_le h.2)
    have hmul := isNearest_mul hn hten
    rw [hb, hc] at hmul
    rw [if_neg (by decide)]
    exact hmul
  next h =>
    rw [if_neg (by decide), ← zpow_natCast]
    exact isNearest_digits (by exact_mod_cast he) rfl

/-- **So is a decimal with a point.** -/
theorem isNearest_ofScientific_true (n e : Nat) :
    IsNearest (Float.ofScientific n true e) (n / 10 ^ e) := by
  unfold Float.ofScientific
  split
  next h =>
    obtain ⟨b, hn, hb⟩ := hasMagnitude_toUInt64 h.1
    obtain ⟨c, hten, hc⟩ := hasMagnitude_table (Nat.lt_succ_of_le h.2)
    have hdiv := isNearest_div hn hten (Binary.mantissa_ne_zero (hc ▸ by positivity))
    rw [hb, hc] at hdiv
    rw [if_pos rfl]
    exact hdiv
  next h =>
    have hexponent : (n : ℚ) / 10 ^ e = n * 10 ^ (Int.negOfNat e) := by
      rw [Int.negOfNat_eq, zpow_neg, Int.ofNat_eq_natCast, zpow_natCast, div_eq_mul_inv]
    rw [if_pos rfl, hexponent]
    refine isNearest_digits ?_ rfl
    rw [Int.negOfNat_eq, Int.ofNat_eq_natCast]
    omega

/-- A natural number is rounded to the nearest float. -/
theorem isNearest_ofNat (n : Nat) : IsNearest (Float.ofNat n) n := by
  have h := isNearest_ofScientific n 0 (by decide)
  rw [pow_zero, mul_one] at h
  exact h

end Abacus.Decimal
