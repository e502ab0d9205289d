import Abacus.Proofs.FloatArithmetic
import Abacus.Proofs.ScalarText
import Abacus.Toml.Printer

/-!
# Reading reals back

A real in a settings file is written with a point and without a power of ten, however many
zeros that takes, and read as the nearest double to the decimal.  The decimal that is written
is one of those that round to the real (`Binary.exists_shortest`), and only one double is
nearest to a decimal (`Binary.Covers.unique`), so the real is read as itself.

The reader does not form every power of ten: it first estimates the size of the decimal from
the number of its digits.  What is written is never so large or so small that the estimate
would cut it off (`Decimal.isNearest_nearest`).

An undefined value keeps nothing but that it is undefined, so it is read as itself only if it
is the one undefined value that a float is kept as.
-/

namespace Abacus

open Json (WellFormed digitsValue)

namespace Decimal

/-! ## The nearest float to a decimal -/

/-- The size of a decimal, estimated by its digits. -/
theorem bounds_of_digitCount {n : Nat} (hn : n ≠ 0) (e : Int) :
    (10 : ℚ) ^ ((digitCount n : Int) + e - 1) ≤ n * 10 ^ e ∧
      (n : ℚ) * 10 ^ e < 10 ^ ((digitCount n : Int) + e) := by
  have hcount := digitCount_pos hn
  have hten : (0 : ℚ) < 10 ^ e := by positivity
  have hlow : ((10 ^ (digitCount n - 1) : Nat) : ℚ) ≤ n := by exact_mod_cast pow_digitCount_le hn
  have hhigh : (n : ℚ) < ((10 ^ digitCount n : Nat) : ℚ) := by exact_mod_cast lt_pow_digitCount n
  constructor
  · rw [show (digitCount n : Int) + e - 1 = ((digitCount n - 1 : Nat) : Int) + e by omega,
      zpow_add₀ (by norm_num), zpow_natCast]
    exact mul_le_mul_of_nonneg_right (by exact_mod_cast hlow) hten.le
  · rw [zpow_add₀ (by norm_num), zpow_natCast]
    exact mul_lt_mul_of_pos_right (by exact_mod_cast hhigh) hten

/-- A decimal that rounds to a double is about as large as the double. -/
theorem Binary.Covers.bounds {b : Binary} (hm : b.mantissa ≠ 0) {q : ℚ} (h : b.Covers q) :
    b.value ≤ 10 * q ∧ q ≤ 10 * b.value := by
  have hquarter := b.quarter_pos
  have hlow := h.mul_quarter_le
  have hhigh := h.le_mul_quarter
  have hone : (1 : ℚ) ≤ b.mantissa := by exact_mod_cast Nat.pos_of_ne_zero hm
  rw [value_eq_quarters]
  constructor <;> nlinarith

/-- **A decimal that rounds to a double is read as the float nearest to it.** -/
theorem isNearest_nearest {b : Binary} (hb : b.Canonical) (he : b.exponent ≤ 971) {n : Nat}
    {e : Int} (hzero : b.mantissa = 0 → n = 0) (hcovers : b.Covers (n * 10 ^ e))
    (hlength : e.natAbs ≤ 2048) : IsNearest (nearest n e) (n * 10 ^ e) := by
  by_cases hn : n = 0
  · rw [nearest, if_pos (.inl hn), hn, Nat.cast_zero, zero_mul]
    exact isNearest_zero rfl
  · have hm : b.mantissa ≠ 0 := fun h => hn (hzero h)
    obtain ⟨hleast, hmost⟩ := Json.magnitude_range hb he hm
    obtain ⟨hlow, hhigh⟩ := Binary.magnitude_bounds hm
    obtain ⟨hvalue, hdecimal⟩ := hcovers.bounds hm
    obtain ⟨hcountLow, hcountHigh⟩ := bounds_of_digitCount hn e
    have hone : (1 : ℚ) < 10 := by norm_num
    have hsmall : ¬ (digitCount n : Int) + e < -330 := by
      have h : (10 : ℚ) ^ (b.magnitude - 1) < 10 ^ ((digitCount n : Int) + e + 1) := by
        rw [zpow_add₀ (by norm_num : (10 : ℚ) ≠ 0) _ 1, zpow_one]
        linarith
      have := (zpow_lt_zpow_iff_right₀ hone).mp h
      omega
    have hlarge : ¬ 310 < (digitCount n : Int) + e := by
      have h : (10 : ℚ) ^ ((digitCount n : Int) + e - 1) < 10 ^ (b.magnitude + 1) := by
        rw [zpow_add₀ (by norm_num : (10 : ℚ) ≠ 0) _ 1, zpow_one]
        linarith
      have := (zpow_lt_zpow_iff_right₀ hone).mp h
      omega
    rw [nearest, if_neg (not_or.mpr ⟨hn, hsmall⟩), if_neg hlarge]
    rcases lt_or_ge e 0 with hneg | hpos
    · have hpower : (n : ℚ) * 10 ^ e = n / 10 ^ e.natAbs := by
        rw [div_eq_mul_inv, ← zpow_natCast, ← zpow_neg, show -(e.natAbs : Int) = e by omega]
      rw [decide_eq_true hneg, hpower]
      exact isNearest_ofScientific_true n e.natAbs
    · have hpower : (n : ℚ) * 10 ^ e = n * 10 ^ e.natAbs := by
        rw [← zpow_natCast, show (e.natAbs : Int) = e by omega]
      rw [decide_eq_false (by omega), hpower]
      exact isNearest_ofScientific n e.natAbs hlength

/-! ## The numeral of a real -/

theorem Digits.plain_positional (d : Digits) (negative : Bool) (wholeFraction : List Char) :
    (d.positional negative wholeFraction).exponent = none ∧
      (d.positional negative wholeFraction).negative = negative := by
  unfold Digits.positional
  split
  · exact ⟨rfl, rfl⟩
  · split <;> exact ⟨rfl, rfl⟩

/-- The digits behind the point are no more than there are places. -/
theorem Digits.length_fraction_positional (d : Digits) (negative : Bool) :
    ((d.positional negative ['0']).fraction.length : Int) ≤ max 1 (d.digits.length - d.point) := by
  unfold Digits.positional
  split
  · simp only [zeros, List.length_append, List.length_replicate]
    omega
  · split
    · simp
    · simp only [List.length_drop]
      omega

end Decimal

namespace Toml

open Decimal (Binary Digits IsNearest Numeral)

/-- What the numeral of a real is in a settings file. -/
structure Spelled (n : Numeral) (x : Double) : Prop where
  formed : WellFormed n
  plain : n.exponent = none
  fraction_ne_nil : n.fraction ≠ []
  negative : n.negative = x.isNegative
  /-- The decimal is one of the numbers that round to the real. -/
  covers : (Binary.ofDouble x).Covers n.value
  zero : (Binary.ofDouble x).mantissa = 0 → n.significand = 0
  length_le : n.fraction.length ≤ 2048

/-- The digits are so many that they reach to the place of the last one. -/
theorem length_digits_ofScaled (c : Nat) (grid : Int) :
    ((Digits.ofScaled c grid).digits.length : Int) - (Digits.ofScaled c grid).point ≤ -grid := by
  obtain ⟨t, ht⟩ := Digits.toDigits_eq_append c grid
  have hpoint : (Digits.ofScaled c grid).point = ((Nat.toDigits 10 c).length : Int) + grid := rfl
  have hlength := congrArg List.length ht
  rw [List.length_append] at hlength
  omega

theorem spelled_numeral {x : Double} (hx : x.isFinite) : Spelled (floatLayout.numeral x) x := by
  obtain ⟨hb, he⟩ := Double.canonical_ofDouble hx
  have hwhole : floatLayout.wholeFraction = ['0'] := rfl
  unfold Decimal.Layout.numeral
  by_cases hm : (Binary.ofDouble x).mantissa = 0
  · obtain ⟨hformed, hsignificand, -⟩ := Json.zeroNumeral_spec x.isNegative
    have hzero : (Binary.ofDouble x).value = 0 := by simp [Binary.value, hm]
    simp only [if_pos hm, hwhole]
    refine ⟨hformed, rfl, List.cons_ne_nil _ _, rfl, ?_, fun _ => hsignificand, by simp⟩
    rw [Numeral.value, hsignificand, Nat.cast_zero, zero_mul, ← hzero]
    exact hb.covers_value
  · obtain ⟨c, grid, hshortest, hcovers, hpos, -, hgrid, -⟩ :=
      Binary.exists_shortest hb hm floatLayout.tie
    obtain ⟨hproper, hvalue, -⟩ := Digits.ofScaled_spec hpos.ne' grid
    obtain ⟨hleast, -⟩ := Json.magnitude_range hb he hm
    have hplaces := length_digits_ofScaled c grid
    have hfraction := Digits.length_fraction_positional (Digits.ofScaled c grid) x.isNegative
    obtain ⟨hformed, hne, -, hsame, -⟩ := Digits.positioned_positional hproper x.isNegative
    have hpositional : floatLayout.positional (Digits.ofScaled c grid).point = true := rfl
    simp only [if_neg hm, hshortest, hpositional, if_true, hwhole]
    obtain ⟨hplain, hnegative⟩ :=
      Digits.plain_positional (Digits.ofScaled c grid) x.isNegative ['0']
    refine ⟨hformed, hplain, hne, hnegative, ?_, fun h => absurd h hm, by omega⟩
    rw [hsame, hvalue]
    exact hcovers

/-! ## Reading it -/

open Lexical
open Float.Model (Format)
open Float.Model.UnpackedFloat (unpackExponent unpackMantissa)

/-- A decimal with a point is read as the nearest double. -/
theorem decimal_point (negative : Bool) {ds fs : List Char} (hds : IsWhole ds) (hne : fs ≠ [])
    (hfs : ∀ c ∈ fs, c.isDigit) {c : Char} (hc : c ∈ ['\n', ',', ']', ' ']) (rest : List Char)
    (hfinite : (Decimal.nearest (digitsValue (ds ++ fs)) (-fs.length)).isFinite) :
    decimal (signChars negative ++ (ds ++ '.' :: (fs ++ c :: rest))) =
      some (floatOf negative (Decimal.nearest (digitsValue (ds ++ fs)) (-fs.length)),
        c :: rest) := by
  have hfraction : fraction ('.' :: (fs ++ c :: rest)) = some (fs, c :: rest) :=
    digitRun_append hne hfs (endsNumber_of_mem hc) rest
  have hexponent : exponent (c :: rest) = some (none, c :: rest) := by
    simp only [List.mem_cons, List.not_mem_nil, or_false] at hc
    rcases hc with rfl | rfl | rfl | rfl <;> rfl
  have hread : Text.readNat? 10 (ds ++ fs) = some (digitsValue (ds ++ fs)) := by
    refine readNat?_digits (List.append_ne_nil_of_left_ne_nil hds.ne_nil _) fun d hd => ?_
    rcases List.mem_append.mp hd with hd | hd
    · exact hds.isDigit d hd
    · exact hfs d hd
  have hpower : (none : Option Int).getD 0 - (fs.length : Int) = -fs.length := Int.zero_sub _
  have hempty : (fs.isEmpty && (none : Option Int).isNone) = false := by simpa using hne
  unfold decimal
  simp only [sign_digits negative hds, wholeDigits_append hds endsNumber_point, hfraction,
    hexponent, hread, hpower, hempty, hfinite, Option.bind_eq_bind, Option.bind_some,
    Bool.true_or, if_true, Bool.false_eq_true, if_false, Option.pure_def]

/-- **A finite real is read as itself.** -/
theorem scalar_numeral {x : Double} (hx : x.isFinite) :
    Yields scalar (floatLayout.numeral x).chars (.float x) := by
  intro rest hrest
  obtain ⟨c, rest, rfl, hc⟩ := hrest.exists_cons
  have hspelled := spelled_numeral hx
  obtain ⟨hb, he⟩ := Double.canonical_ofDouble hx
  generalize floatLayout.numeral x = n at hspelled ⊢
  have hds : IsWhole n.whole := ⟨hspelled.formed.whole_ne_nil, hspelled.formed.whole_digits,
    hspelled.formed.no_leading_zero⟩
  have hpower : n.power = -n.fraction.length := by
    rw [Numeral.power, Numeral.written, hspelled.plain]
    exact Int.zero_sub _
  have hcovers := hspelled.covers
  rw [Numeral.value, hpower] at hcovers
  have hnearest := Decimal.isNearest_nearest hb he hspelled.zero hcovers (by
    rw [Int.natAbs_neg, Int.natAbs_natCast]
    exact hspelled.length_le)
  have hmagnitude := hnearest.hasMagnitude hx hcovers
  have hdate := datetime_digits n.negative hds.isDigit endsNumber_point (n.fraction ++ c :: rest)
  have hdecimal := decimal_point n.negative hds hspelled.fraction_ne_nil
    hspelled.formed.fraction_digits hc rest hmagnitude.isFinite
  have htext : n.chars ++ c :: rest =
      signChars n.negative ++ (n.whole ++ '.' :: (n.fraction ++ c :: rest)) := by
    simp [Numeral.chars, signChars, hspelled.plain, hspelled.fraction_ne_nil]
  obtain ⟨e, tail, hcons, hhead⟩ :=
    exists_number_eq_cons n.negative hds ('.' :: (n.fraction ++ c :: rest))
  rw [htext]
  rw [hcons] at hdate hdecimal ⊢
  rw [scalar_eq hhead, hdate, hdecimal, floatOf, hspelled.negative]
  exact congrArg (fun y => some (Value.float y, c :: rest)) (hmagnitude.ofFloat_signed hx)

/-! ## What is not finite -/

/-- A double that is the encoding of a float. -/
def IsKept (x : Double) : Prop := ∃ f, Double.ofFloat f = x

/-- There is one undefined value that a float is kept as. -/
theorem IsKept.eq_of_isUndefined {x : Double} (hx : IsKept x) (h : x.isUndefined = true) :
    x = .ofFloat (0 / 0) := by
  obtain ⟨f, rfl⟩ := hx
  obtain ⟨hinfinite, hfraction⟩ : (Double.ofFloat f).isFinite = false ∧
      (Double.ofFloat f).fractionField ≠ 0 := by simpa [Double.isUndefined] using h
  have hfield : (Double.ofFloat f).exponentField = 2047 := by
    simpa [Double.isFinite] using hinfinite
  have hones : @unpackExponent Format.binary64 (Double.ofFloat f).bits.toBitVec = -1#_ :=
    BitVec.eq_of_toNat_eq ((Double.toNat_unpackExponent _).trans hfield)
  have hmantissa : @unpackMantissa Format.binary64 (Double.ofFloat f).bits.toBitVec ≠ 0#_ :=
    fun hzero =>
      hfraction ((Double.toNat_unpackMantissa _).symm.trans (congrArg BitVec.toNat hzero))
  have hpacked := f.toModel.valid.eq_packedNaN hones hmantissa
  exact congrArg Double.mk (UInt64.toBitVec_inj.mp hpacked)

/-- The infinite values are told apart by their signs. -/
theorem eq_infinite {x : Double} (hfinite : x.isFinite = false) (hdefined : x.isUndefined = false) :
    x = .ofFloat (if x.isNegative then -(1 / 0) else 1 / 0) := by
  have hfield : x.exponentField = 2047 := by simpa [Double.isFinite] using hfinite
  have hfraction : x.fractionField = 0 := by simpa [Double.isUndefined, hfinite] using hdefined
  cases hsign : x.isNegative with
  | false =>
    refine Double.ext_magnitude (hsign.trans (by decide +kernel)) (Double.ofDouble_congr ?_ ?_)
    · exact hfield.trans (by decide +kernel)
    · exact hfraction.trans (by decide +kernel)
  | true =>
    refine Double.ext_magnitude (hsign.trans (by decide +kernel)) (Double.ofDouble_congr ?_ ?_)
    · exact hfield.trans (by decide +kernel)
    · exact hfraction.trans (by decide +kernel)

/-- Words that are no decimals. -/
theorem scalar_special (negative : Bool) (word : List Char) {rest : List Char} {x : Double}
    (hword : (∃ cs, word = 'i' :: cs) ∨ ∃ cs, word = 'n' :: cs)
    (hspecial : special (signChars negative ++ (word ++ rest)) = some (.float x, rest)) :
    scalar (signChars negative ++ (word ++ rest)) = some (.float x, rest) := by
  have hscalar : ∀ {c : Char} (cs : List Char), c = '-' ∨ c = 'i' ∨ c = 'n' →
      decimal (c :: cs) = none → special (c :: cs) = some (.float x, rest) →
        scalar (c :: cs) = some (.float x, rest) := by
    intro c cs hc hdecimal hspecial
    have hdigit : c.isDigit = false := by rcases hc with rfl | rfl | rfl <;> rfl
    rw [scalar_eq (.inr hc), datetime_of_not_isDigit hdigit, hdecimal, hspecial]
    rfl
  obtain ⟨c, cs, rfl, hc⟩ : ∃ c cs, word = c :: cs ∧ (c = 'i' ∨ c = 'n') := by
    rcases hword with ⟨cs, rfl⟩ | ⟨cs, rfl⟩
    · exact ⟨_, _, rfl, .inl rfl⟩
    · exact ⟨_, _, rfl, .inr rfl⟩
  cases negative with
  | true =>
    refine hscalar _ (.inl rfl) ?_ hspecial
    rcases hc with rfl | rfl <;> rfl
  | false =>
    refine hscalar _ (.inr hc) ?_ hspecial
    rcases hc with rfl | rfl <;> rfl

/-- **A real is read as itself.** -/
theorem scalar_float {x : Double} (hx : IsKept x) : Yields scalar (floatChars x) (.float x) := by
  unfold floatChars
  split
  next hfinite => exact scalar_numeral hfinite
  next hfinite =>
    rw [Bool.not_eq_true] at hfinite
    split
    next hundefined =>
      intro rest _
      refine scalar_special false ['n', 'a', 'n'] (.inr ⟨_, rfl⟩) ?_
      rw [hx.eq_of_isUndefined hundefined]
      rfl
    next hdefined =>
      have hinfinite := eq_infinite hfinite (Bool.eq_false_iff.mpr hdefined)
      split
      next hsign =>
        intro rest _
        refine scalar_special true ['i', 'n', 'f'] (.inl ⟨_, rfl⟩) ?_
        rw [hinfinite, if_pos hsign]
        rfl
      next hsign =>
        intro rest _
        refine scalar_special false ['i', 'n', 'f'] (.inl ⟨_, rfl⟩) ?_
        rw [hinfinite, if_neg hsign]
        rfl

end Toml

end Abacus
