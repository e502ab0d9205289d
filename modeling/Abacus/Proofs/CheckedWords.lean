import Mathlib.Algebra.Order.Ring.Int
import Mathlib.Algebra.Ring.Int.Parity
import Mathlib.Tactic.Positivity
import Mathlib.Tactic.Ring
import Abacus.Number.Arithmetic

/-!
# Checked operations are exact

The operations of `Abacus.Number.Checked` work on words and never leave them.  Here each of them
is shown to be the operation on the unbounded integers, followed by the question whether there is
a word for the result: one equation with `fit?` for each (`checkedAdd_eq` and so on).

## Where this is not immediate

A quotient that has been rounded towards zero is corrected by one, and a remainder by the divisor,
after the test for overflow.  Neither correction wraps around (`floorQuotient?_eq`,
`floorRemainder?_eq`): the quotient rounded down is no larger than the dividend in magnitude, and a
remainder is only moved when its sign is not that of the divisor.

Powers are formed by squaring, and refused when a square is out of range even if the power is not
known to be.  It is: the factors are not zero, and a square that is no word is larger than
`2 ^ 63`, not equal to it, because `2 ^ 63` is no square (`lt_mul_self`).  Without that `-1` times
such a square could still be the least word.  An exponent of more than 32 bits is not used at all,
which loses nothing but powers of `0`, `1` and `-1` (`power?_eq`).

A shift to the left is tested by shifting back.  What comes back is the word if and only if the
shifted word is its multiple, since the bits that have been shifted in are zeros
(`shiftLeft?_eq`).
-/

namespace Abacus

namespace Number

/-- The answer to an operation whose exact result is the integer `n`. -/
def exact (op : Operation) (n : Int) : Except EvalError Number := ofWord op (fit? n)

/-- What `exact` answers is the exact result. -/
theorem exact_eq_ok_iff {op : Operation} {n : Int} {w : Int64} :
    exact op n = .ok (.int w) ↔ w.toInt = n := by
  rw [← fit?_eq_some_iff]
  unfold exact ofWord
  split <;> simp_all

theorem exact_of_not_inRange {op : Operation} {n : Int} (h : ¬ InRange n) :
    exact op n = .error (.overflow op) := by
  rw [exact, fit?_eq_none_iff.mpr h]
  rfl

theorem exact_of_inRange (op : Operation) {n : Int} (h : InRange n) :
    ∃ w : Int64, exact op n = .ok (.int w) ∧ w.toInt = n := by
  have hw : (Int64.ofInt n).toInt = n := Int64.toInt_ofInt_of_le h.1 h.2
  exact ⟨Int64.ofInt n, exact_eq_ok_iff.mpr hw, hw⟩

/-- The answer to an operation that has the exact result `n` can only be `n` or an overflow. -/
theorem exact_eq_overflow {op op' : Operation} {n : Int}
    (h : exact op n = .error (.overflow op')) : op' = op ∧ ¬ InRange n := by
  by_cases hn : InRange n
  · obtain ⟨w, hw, -⟩ := exact_of_inRange op hn
    rw [hw] at h
    cases h
  · rw [exact_of_not_inRange hn] at h
    cases h
    exact ⟨rfl, hn⟩

end Number

namespace Word

open Number (InRange fit? inRange_toInt fit?_toInt fit?_eq_some_iff fit?_eq_none_iff)

/-- An operation that fails exactly where there is no word for the exact result. -/
theorem ite_eq_fit? {failed : Prop} [Decidable failed] {w : Int64} {n : Int}
    (hfailed : failed ↔ ¬ InRange n) (hw : ¬ failed → w.toInt = n) :
    (if failed then none else some w) = fit? n := by
  split
  next h => exact (fit?_eq_none_iff.mpr (hfailed.mp h)).symm
  next h => exact (fit?_eq_some_iff.mpr (hw h)).symm

theorem checkedAdd_eq (x y : Int64) : checkedAdd x y = fit? (x.toInt + y.toInt) := by
  refine ite_eq_fit? ?_ fun h => ?_
  · simp only [BitVec.saddOverflow, Int64.toInt_toBitVec, InRange, Bool.or_eq_true,
      decide_eq_true_eq]
    omega
  · exact BitVec.toInt_add_of_not_saddOverflow h

theorem checkedSub_eq (x y : Int64) : checkedSub x y = fit? (x.toInt - y.toInt) := by
  refine ite_eq_fit? ?_ fun h => ?_
  · simp only [BitVec.ssubOverflow, Int64.toInt_toBitVec, InRange, Bool.or_eq_true,
      decide_eq_true_eq]
    omega
  · exact BitVec.toInt_sub_of_not_ssubOverflow h

theorem checkedMul_eq (x y : Int64) : checkedMul x y = fit? (x.toInt * y.toInt) := by
  refine ite_eq_fit? ?_ fun h => ?_
  · simp only [BitVec.smulOverflow, Int64.toInt_toBitVec, InRange, Bool.or_eq_true,
      decide_eq_true_eq]
    omega
  · exact BitVec.toInt_mul_of_not_smulOverflow h

/-! ## Words compared with literals -/

theorem toInt_eq_zero_iff {x : Int64} : x.toInt = 0 ↔ x = 0 :=
  Int64.toInt_inj (y := 0)

theorem toInt_neg_iff {x : Int64} : x.toInt < 0 ↔ x < 0 :=
  Int64.lt_iff_toInt_lt (y := 0) |>.symm

theorem toInt_nonneg_iff {x : Int64} : 0 ≤ x.toInt ↔ 0 ≤ x :=
  Int64.le_iff_toInt_le (x := 0) |>.symm

theorem toInt_lt_width_iff {x : Int64} : x.toInt < 64 ↔ x < 64 :=
  Int64.lt_iff_toInt_lt (y := 64) |>.symm

theorem eq_minValue_iff {x : Int64} : x = Int64.minValue ↔ x.toInt = -0x8000000000000000 := by
  rw [← Int64.toInt_inj]
  rfl

/-- Where the wrapped result is one, it is exact. -/
theorem bmod_eq_self {n : Int} (h : InRange n) : n.bmod (2 ^ 64) = n := by
  unfold InRange at h
  exact Int.bmod_eq_of_le (by omega) (by omega)

theorem checkedNeg_eq (x : Int64) : checkedNeg x = fit? (-x.toInt) := by
  have hx := inRange_toInt x
  have hfailed : x = Int64.minValue ↔ ¬ InRange (-x.toInt) := by
    rw [eq_minValue_iff]
    unfold InRange at *
    omega
  refine ite_eq_fit? hfailed fun h => ?_
  rw [Int64.toInt_neg, bmod_eq_self (not_not.mp fun hrange => h (hfailed.mpr hrange))]

theorem checkedAbs_eq (x : Int64) : checkedAbs x = fit? |x.toInt| := by
  unfold checkedAbs
  split
  next h =>
    rw [checkedNeg_eq, abs_of_neg (toInt_neg_iff.mpr h)]
  next h =>
    rw [abs_of_nonneg (not_lt.mp (mt toInt_neg_iff.mp h)),
      fit?_toInt]

/-! ## Division -/

theorem divisionFails_iff {x y : Int64} (hy : y ≠ 0) :
    DivisionFails x y ↔ x.toInt = -0x8000000000000000 ∧ y.toInt = -1 := by
  rw [← eq_minValue_iff, DivisionFails, or_iff_right hy, ← Int64.toInt_inj (y := -1)]
  rfl

/-- There is a word for every quotient of words but one. -/
theorem inRange_tdiv_iff (x : Int64) {y : Int64} (hy : y ≠ 0) :
    InRange (x.toInt.tdiv y.toInt) ↔ ¬ DivisionFails x y := by
  have hne := mt toInt_eq_zero_iff.mp hy
  have hx := inRange_toInt x
  have habs := Int.natAbs_tdiv x.toInt y.toInt
  rw [divisionFails_iff hy]
  unfold InRange at hx ⊢
  by_cases hlarge : 2 ≤ y.toInt.natAbs
  · -- A divisor other than `1` and `-1` halves the magnitude at least.
    have hhalf : (x.toInt.tdiv y.toInt).natAbs ≤ x.toInt.natAbs / 2 := by
      rw [habs]
      exact Nat.div_le_div_left hlarge two_pos
    omega
  · rcases (by omega : y.toInt = 1 ∨ y.toInt = -1) with hone | hminus
    · rw [hone, Int.tdiv_one]
      omega
    · rw [hminus, Int.tdiv_neg, Int.tdiv_one]
      omega

theorem checkedDiv_eq (x : Int64) {y : Int64} (hy : y ≠ 0) :
    checkedDiv x y = fit? (x.toInt.tdiv y.toInt) := by
  have hrange := inRange_tdiv_iff x hy
  refine ite_eq_fit? (by rw [hrange, not_not]) fun h => ?_
  rw [Int64.toInt_div, bmod_eq_self (hrange.mpr h)]

/-- Rounding down instead of towards zero. -/
theorem fdiv_eq_ite (m : Int) {n : Int} (hn : n ≠ 0) :
    m.fdiv n = if m.tmod n ≠ 0 ∧ ¬ (m < 0 ↔ n < 0) then m.tdiv n - 1 else m.tdiv n := by
  rw [Int.fdiv_eq_tdiv]
  simp only [Int.dvd_iff_tmod_eq_zero]
  by_cases hr : m.tmod n = 0
  · simp [hr]
  · rcases lt_or_gt_of_ne hn with hneg | hpos
    · by_cases hm : m < 0
      · simp [hr, hm, hneg, hneg.not_ge, hm.not_ge, Int.sign_eq_neg_one_of_neg hneg]
      · simp [hr, hm, hneg, hneg.not_ge, not_lt.mp hm]
    · by_cases hm : m < 0
      · simp [hr, hm, hpos.not_gt, hpos.le, hm.not_ge, Int.sign_eq_one_of_pos hpos]
      · simp [hr, hm, hpos.not_gt, hpos.le, not_lt.mp hm]

/-- The remainder that goes with it. -/
theorem fmod_eq_ite (m : Int) {n : Int} (hn : n ≠ 0) :
    m.fmod n = if m.tmod n ≠ 0 ∧ ¬ (m.tmod n < 0 ↔ n < 0) then m.tmod n + n else m.tmod n := by
  by_cases hr : m.tmod n = 0
  · rw [if_neg fun h => h.1 hr, hr, Int.fmod_eq_zero_of_dvd (Int.dvd_of_tmod_eq_zero hr)]
  · -- A remainder has the sign of the dividend.
    have hsign : m < 0 ↔ m.tmod n < 0 := by
      have hneg := Int.tmod_nonneg (a := -m) n
      have hpos := Int.tmod_nonneg (a := m) n
      rw [Int.neg_tmod] at hneg
      omega
    rw [Int.fmod_def, fdiv_eq_ite m hn]
    simp only [hsign, ne_eq]
    rw [Int.tmod_def]
    split <;> ring

theorem mod_ne_zero_iff (x y : Int64) : x % y ≠ 0 ↔ x.toInt.tmod y.toInt ≠ 0 := by
  rw [← Int64.toInt_mod, ne_eq, ← Int64.toInt_inj]
  rfl

/-- The quotient is rounded down without wrapping. -/
theorem floorQuotient?_eq (x : Int64) {y : Int64} (hy : y ≠ 0) :
    floorQuotient? x y = fit? (x.toInt.fdiv y.toInt) := by
  by_cases hfails : DivisionFails x y
  · obtain ⟨hx, hy'⟩ := (divisionFails_iff hy).mp hfails
    rw [floorQuotient?, checkedDiv, if_pos hfails, hx, hy']
    rfl
  · have hfloor := fdiv_eq_ite x.toInt (mt toInt_eq_zero_iff.mp hy)
    have hrange := (inRange_tdiv_iff x hy).mpr hfails
    have hquotient : (x / y).toInt = x.toInt.tdiv y.toInt := by
      rw [Int64.toInt_div, bmod_eq_self hrange]
    simp only [floorQuotient?, checkedDiv, checkedRem, if_neg hfails, Option.bind_eq_bind,
      Option.bind_some, Option.pure_def, mod_ne_zero_iff, ← toInt_neg_iff]
    refine (fit?_eq_some_iff.mpr ?_).symm
    split
    next hcorrect =>
      rw [if_pos hcorrect] at hfloor
      have hsmaller : InRange (x.toInt.tdiv y.toInt - 1) := by
        have hx := inRange_toInt x
        have habs := Int.natAbs_fdiv_le_natAbs x.toInt y.toInt
        unfold InRange at *
        omega
      rw [hfloor, Int64.toInt_sub, hquotient]
      exact bmod_eq_self hsmaller
    next hexact => rw [hfloor, if_neg hexact, hquotient]

/-- The remainder is corrected without wrapping, and missing with the quotient. -/
theorem floorRemainder?_eq (x : Int64) {y : Int64} (hy : y ≠ 0) :
    floorRemainder? x y =
      if DivisionFails x y then none else fit? (x.toInt.fmod y.toInt) := by
  split
  next hfails => rw [floorRemainder?, checkedRem, if_pos hfails]; rfl
  next hfails =>
    have hfloor := fmod_eq_ite x.toInt (mt toInt_eq_zero_iff.mp hy)
    have hneg : x % y < 0 ↔ x.toInt.tmod y.toInt < 0 := by rw [← toInt_neg_iff, Int64.toInt_mod]
    simp only [floorRemainder?, checkedRem, if_neg hfails, Option.bind_eq_bind, Option.bind_some,
      Option.pure_def, mod_ne_zero_iff, hneg, ← toInt_neg_iff (x := y)]
    refine (fit?_eq_some_iff.mpr ?_).symm
    split
    next hcorrect =>
      have hsmall : InRange (x.toInt.tmod y.toInt + y.toInt) := by
        have hy := inRange_toInt y
        have hr := inRange_toInt (x % y)
        rw [Int64.toInt_mod] at hr
        unfold InRange at *
        omega
      rw [hfloor, if_pos hcorrect, Int64.toInt_add, Int64.toInt_mod]
      exact bmod_eq_self hsmall
    next hexact => rw [hfloor, if_neg hexact, Int64.toInt_mod]

/-! ## Powers -/

/-- The upper end of the range is no square, so that a square that is no word lies beyond both
ends. -/
theorem lt_mul_self {m : Int} (h : ¬ InRange (m * m)) : 0x8000000000000000 < m * m := by
  have hnonneg := mul_self_nonneg m
  have hsq : m * m = m.natAbs * m.natAbs := (Int.natAbs_mul_self' m).symm
  rcases Nat.lt_or_ge m.natAbs 3037000500 with hsmall | hlarge
  · have hbound := Nat.mul_le_mul (Nat.le_of_lt_succ hsmall) (Nat.le_of_lt_succ hsmall)
    unfold InRange at h
    omega
  · have hbound := Nat.mul_le_mul hlarge hlarge
    omega

/-- What is out of range stays there when multiplied by a positive number. -/
theorem not_inRange_mul {m k : Int} (hm : ¬ InRange m) (hk : 0 < k) : ¬ InRange (m * k) := by
  unfold InRange at *
  rcases lt_or_ge m 0 with hneg | hpos
  · have := mul_le_mul_of_nonpos_left (show 1 ≤ k by omega) hneg.le
    omega
  · have := le_mul_of_one_le_right hpos (show 1 ≤ k by omega)
    omega

/-- A multiple of what lies beyond both ends of the range does so too. -/
theorem not_inRange_mul_of_lt {m k : Int} (hm : 0x8000000000000000 < m) (hk : k ≠ 0) :
    ¬ InRange (k * m) := by
  unfold InRange
  rcases lt_or_gt_of_ne hk with hneg | hpos
  · have := mul_le_mul_of_nonneg_right (show k ≤ -1 by omega) (show 0 ≤ m by omega)
    omega
  · have := le_mul_of_one_le_left (show 0 ≤ m by omega) (show 1 ≤ k by omega)
    omega

theorem powStep_eq (acc base : Int64) (exponent : Nat) :
    powStep acc base exponent = fit? (acc.toInt * base.toInt ^ (exponent % 2)) := by
  unfold powStep
  rcases Nat.mod_two_eq_zero_or_one exponent with heven | hodd
  · rw [if_neg (by omega), heven, pow_zero, mul_one, fit?_toInt]
  · rw [if_pos hodd, hodd, pow_one, checkedMul_eq]

/-- Squaring and multiplying forms the power.  Nothing is refused on the way that does not leave
the range for good, unless it is to be multiplied by zero. -/
theorem powLoop_eq {acc base : Int64} (exponent : Nat) (hzero : acc.toInt ≠ 0 ∨ base.toInt = 0) :
    powLoop acc base exponent = fit? (acc.toInt * base.toInt ^ exponent) := by
  induction exponent using Nat.strong_induction_on generalizing acc base with
  | _ exponent ih =>
  rw [powLoop]
  split
  next hle => rw [powStep_eq, Nat.mod_eq_of_lt (Nat.lt_succ_of_le hle)]
  next hlarge =>
    have hsplit : acc.toInt * base.toInt ^ exponent =
        acc.toInt * base.toInt ^ (exponent % 2) * (base.toInt * base.toInt) ^ (exponent / 2) := by
      rw [← pow_two, ← pow_mul, mul_assoc, ← pow_add, Nat.mod_add_div]
    have hhalf : exponent / 2 ≠ 0 := by omega
    rw [powStep_eq, checkedMul_eq, hsplit]
    cases hproduct : fit? (acc.toInt * base.toInt ^ (exponent % 2)) with
    | none =>
      have hout := fit?_eq_none_iff.mp hproduct
      have hbase : base.toInt ≠ 0 := fun h => hout <| by
        rw [h]
        rcases Nat.mod_two_eq_zero_or_one exponent with heven | hodd
        · rw [heven, pow_zero, mul_one]
          exact inRange_toInt acc
        · rw [hodd, pow_one, mul_zero]
          decide
      have hpos := pow_pos (mul_self_pos.mpr hbase) (exponent / 2)
      exact (fit?_eq_none_iff.mpr (not_inRange_mul hout hpos)).symm
    | some product =>
      have hvalue := fit?_eq_some_iff.mp hproduct
      have hnonzero : base.toInt ≠ 0 → product.toInt ≠ 0 := fun hbase =>
        hvalue ▸ mul_ne_zero (hzero.resolve_right hbase) (pow_ne_zero _ hbase)
      rw [← hvalue]
      cases hsquare : fit? (base.toInt * base.toInt) with
      | none =>
        have hlt := lt_mul_self (fit?_eq_none_iff.mp hsquare)
        have hbase : base.toInt ≠ 0 := fun h => by simp [h] at hlt
        have hpow : 0x8000000000000000 < (base.toInt * base.toInt) ^ (exponent / 2) :=
          lt_of_lt_of_le hlt (le_self_pow₀ (by omega) hhalf)
        exact (fit?_eq_none_iff.mpr (not_inRange_mul_of_lt hpow (hnonzero hbase))).symm
      | some square =>
        have hsq := fit?_eq_some_iff.mp hsquare
        rw [← hsq]
        refine ih _ (by omega) ?_
        by_cases hbase : base.toInt = 0
        · exact .inr (by rw [hsq, hbase, mul_zero])
        · exact .inl (hnonzero hbase)

theorem checkedPow_eq (base : Int64) (exponent : UInt32) :
    checkedPow base exponent = fit? (base.toInt ^ exponent.toNat) := by
  rw [checkedPow, powLoop_eq _ (.inl (by decide)), Int64.toInt_one, one_mul]

/-- A large exponent keeps a power in range only if the base is `0`, `1` or `-1`. -/
theorem not_inRange_pow {m : Int} (hm : 2 ≤ m.natAbs) {n : Nat} (hn : 64 ≤ n) :
    ¬ InRange (m ^ n) := by
  have hlarge : 2 ^ 64 ≤ (m ^ n).natAbs := by
    rw [Int.natAbs_pow]
    calc 2 ^ 64 ≤ 2 ^ n := Nat.pow_le_pow_right two_pos hn
      _ ≤ m.natAbs ^ n := Nat.pow_le_pow_left hm n
  unfold InRange
  omega

theorem toNat_toUInt64 {y : Int64} (hy : 0 ≤ y) : y.toUInt64.toNat = y.toInt.toNat := by
  rw [Int64.toNat_toUInt64_of_le hy, Int64.toNat_toInt]

/-- An exponent of 32 bits is the one that was given. -/
theorem toNat_of_toUInt32? {y : Int64} {exponent : UInt32} (h : toUInt32? y = some exponent) :
    exponent.toNat = y.toInt.toNat := by
  simp only [toUInt32?, Option.ite_none_right_eq_some, Option.some.injEq] at h
  obtain ⟨⟨hpos, hle⟩, rfl⟩ := h
  have hle := Int64.le_iff_toInt_le.mp hle
  have hmax : (4294967295 : Int64).toInt = 4294967295 := by decide
  rw [UInt64.toNat_toUInt32, toNat_toUInt64 hpos]
  omega

theorem lt_of_toUInt32?_eq_none {y : Int64} (hy : 0 ≤ y) (h : toUInt32? y = none) :
    4294967295 < y.toInt := by
  simp only [toUInt32?, ite_eq_right_iff, reduceCtorEq, imp_false, not_and] at h
  have hnot := h hy
  rw [Int64.le_iff_toInt_le, not_le] at hnot
  exact hnot

theorem mod_two_eq_zero_iff {y : Int64} (hy : 0 ≤ y.toInt) : y % 2 = 0 ↔ Even y.toInt.toNat := by
  rw [Nat.even_iff, ← Int64.toInt_inj, Int64.toInt_mod, Int.tmod_eq_emod_of_nonneg hy]
  show y.toInt % 2 = 0 ↔ _
  omega

/-- A power is formed exactly, however large the exponent. -/
theorem power?_eq (x : Int64) {y : Int64} (hy : 0 ≤ y) :
    power? x y = fit? (x.toInt ^ y.toInt.toNat) := by
  unfold power?
  split
  next exponent h => rw [checkedPow_eq, toNat_of_toUInt32? h]
  next h =>
    have hlarge := lt_of_toUInt32?_eq_none hy h
    have hne : y.toInt.toNat ≠ 0 := by omega
    split
    next hx =>
      rcases hx with rfl | rfl
      · exact (fit?_eq_some_iff.mpr (zero_pow hne).symm).symm
      · exact (fit?_eq_some_iff.mpr (one_pow _).symm).symm
    next hunit =>
      split
      next hx =>
        subst hx
        refine (fit?_eq_some_iff.mpr ?_).symm
        split
        next heven => exact (((mod_two_eq_zero_iff (by omega)).mp heven).neg_one_pow).symm
        next hodd =>
          rw [mod_two_eq_zero_iff (by omega), Nat.not_even_iff_odd] at hodd
          exact hodd.neg_one_pow.symm
      next hminus =>
        have hwords : x.toInt ≠ 0 ∧ x.toInt ≠ 1 ∧ x.toInt ≠ -1 := by
          refine ⟨fun h => hunit (.inl ?_), fun h => hunit (.inr ?_), fun h => hminus ?_⟩ <;>
            exact Int64.toInt_inj.mp h
        exact (fit?_eq_none_iff.mpr (not_inRange_pow (by omega) (by omega))).symm

/-! ## Shifts -/

/-- The number of places is taken as it is. -/
theorem toNat_smod_of_lt {y : Int64} (hy : 0 ≤ y ∧ y < 64) :
    (y.toBitVec.smod 64).toNat = y.toInt.toNat := by
  have hsame : y.toBitVec.smod 64 = y.toBitVec := by
    refine BitVec.eq_of_toInt_eq ?_
    rw [BitVec.toInt_smod]
    exact Int.fmod_eq_of_lt (toInt_nonneg_iff.mpr hy.1) (toInt_lt_width_iff.mpr hy.2)
  rw [hsame, Int64.toNat_toBitVec_of_le hy.1, Int64.toNat_toInt]

theorem toInt_shiftRight (x : Int64) {y : Int64} (hy : 0 ≤ y ∧ y < 64) :
    (x >>> y).toInt = x.toInt / 2 ^ y.toInt.toNat := by
  rw [← Int64.toInt_toBitVec, Int64.toBitVec_shiftRight, BitVec.toInt_sshiftRight',
    toNat_smod_of_lt hy, Int.shiftRight_eq_div_pow, Int64.toInt_toBitVec]
  norm_cast

theorem toInt_shiftLeft (x : Int64) {y : Int64} (hy : 0 ≤ y ∧ y < 64) :
    (x <<< y).toInt = (x.toInt * 2 ^ y.toInt.toNat).bmod (2 ^ 64) := by
  rw [← Int64.toInt_toBitVec, Int64.toBitVec_shiftLeft, BitVec.shiftLeft_eq', toNat_smod_of_lt hy,
    BitVec.toInt_shiftLeft, Nat.shiftLeft_eq, ← Int64.toInt_toBitVec x, BitVec.toInt_eq_toNat_bmod,
    Int.bmod_mul_bmod]
  norm_cast

/-- Shifting back brings back the word exactly if no bits have been lost. -/
theorem shiftLeft?_eq (x : Int64) {y : Int64} (hy : 0 ≤ y ∧ y < 64) :
    shiftLeft? x y = fit? (x.toInt * 2 ^ y.toInt.toNat) := by
  have hshifted := toInt_shiftLeft x hy
  have hpow : (0 : Int) < 2 ^ y.toInt.toNat := by positivity
  have hwidth : (2 : Int) ^ y.toInt.toNat ∣ (2 ^ 64 : Nat) := by
    have hlt := toInt_lt_width_iff.mpr hy.2
    have hplaces : y.toInt.toNat ≤ 64 := by omega
    exact_mod_cast pow_dvd_pow 2 hplaces
  have hback : (x <<< y) >>> y = x ↔ InRange (x.toInt * 2 ^ y.toInt.toNat) := by
    rw [← Int64.toInt_inj, toInt_shiftRight _ hy]
    refine ⟨fun h => ?_, fun h => ?_⟩
    · -- The bits shifted in are zeros, so that the quotient comes out even.
      have hdvd : (2 : Int) ^ y.toInt.toNat ∣ (x <<< y).toInt := by
        rw [hshifted, Int.bmod_eq_self_sub_mul_bdiv]
        exact dvd_sub (dvd_mul_left _ _) (Dvd.dvd.mul_right hwidth _)
      rw [← h, Int.ediv_mul_cancel hdvd]
      exact inRange_toInt _
    · rw [hshifted, bmod_eq_self h, Int.mul_ediv_cancel _ hpow.ne']
  refine ite_eq_fit? (not_congr hback) fun h => ?_
  rw [hshifted, bmod_eq_self (hback.mp (not_not.mp h))]

end Word

/-! ## The operations of the calculator -/

namespace Number

variable {x y : Int64}

theorem applyInt_div_of_dvd (hy : y.toInt ≠ 0) (hdvd : y.toInt ∣ x.toInt) :
    applyInt .div x y = exact (.binary .div) (x.toInt / y.toInt) := by
  have hne : y ≠ 0 := mt Word.toInt_eq_zero_iff.mpr hy
  rw [← Int.tdiv_eq_ediv_of_dvd hdvd, exact, ← Word.checkedDiv_eq x hne]
  simp only [applyInt]
  rw [if_neg hne, Word.checkedRem, Word.checkedDiv]
  split
  next h =>
    split at h
    next hfails => rw [if_pos hfails]; rfl
    next => cases h
  next r h =>
    obtain ⟨hfails, rfl⟩ : ¬ Word.DivisionFails x y ∧ x % y = r := by simpa using h
    have hzero : x % y = 0 := by
      rw [← Word.toInt_eq_zero_iff, Int64.toInt_mod, Int.tmod_eq_zero_of_dvd hdvd]
    rw [if_neg (not_not.mpr hzero)]

/-- A division that does not come out even leaves the integers. -/
theorem applyInt_div_of_not_dvd (hy : y.toInt ≠ 0) (hdvd : ¬ y.toInt ∣ x.toInt) :
    applyInt .div x y = applyReal .div (toReal (.int x)) (toReal (.int y)) := by
  have hne : y ≠ 0 := mt Word.toInt_eq_zero_iff.mpr hy
  have hrem : x % y ≠ 0 := by
    rw [Word.mod_ne_zero_iff]
    exact mt Int.dvd_of_tmod_eq_zero hdvd
  have hfails : ¬ Word.DivisionFails x y := by
    rw [Word.divisionFails_iff hne]
    rintro ⟨-, hminus⟩
    exact hdvd (hminus ▸ Int.neg_dvd.mpr (one_dvd _))
  simp only [applyInt, Word.checkedRem]
  rw [if_neg hne, if_neg hfails]
  exact if_pos hrem

theorem applyInt_floorDiv (hy : y.toInt ≠ 0) :
    applyInt .floorDiv x y = exact (.binary .floorDiv) (x.toInt.fdiv y.toInt) := by
  have hne : y ≠ 0 := mt Word.toInt_eq_zero_iff.mpr hy
  simp only [applyInt]
  rw [if_neg hne, Word.floorQuotient?_eq x hne]
  rfl

/-- The remainder, or an overflow where the quotient does not fit. -/
theorem applyInt_mod_eq (hy : y.toInt ≠ 0) :
    applyInt .mod x y =
      if x = Int64.minValue ∧ y = -1 then .error (.overflow (.binary .mod))
      else exact (.binary .mod) (x.toInt.fmod y.toInt) := by
  have hne : y ≠ 0 := mt Word.toInt_eq_zero_iff.mpr hy
  have hpair : Word.DivisionFails x y ↔ x = Int64.minValue ∧ y = -1 := or_iff_right hne
  simp only [applyInt]
  rw [if_neg hne, Word.floorRemainder?_eq x hne]
  simp only [hpair]
  split <;> rfl

theorem applyInt_pow (hy : 0 ≤ y.toInt) :
    applyInt .pow x y = exact (.binary .pow) (x.toInt ^ y.toInt.toNat) := by
  simp only [applyInt]
  rw [if_neg (mt Word.toInt_neg_iff.mpr (not_lt.mpr hy)),
    Word.power?_eq x (Word.toInt_nonneg_iff.mp hy)]
  rfl

theorem applyInt_shiftLeft (hpos : 0 ≤ y.toInt) (hlt : y.toInt < 64) :
    applyInt .shiftLeft x y = exact (.binary .shiftLeft) (x.toInt * 2 ^ y.toInt.toNat) := by
  have hy := And.intro (Word.toInt_nonneg_iff.mp hpos) (Word.toInt_lt_width_iff.mp hlt)
  simp only [applyInt]
  rw [if_pos hy, Word.shiftLeft?_eq x hy]
  rfl

theorem applyInt_shiftRight (hpos : 0 ≤ y.toInt) (hlt : y.toInt < 64) :
    applyInt .shiftRight x y = exact (.binary .shiftRight) (x.toInt / 2 ^ y.toInt.toNat) := by
  have hy := And.intro (Word.toInt_nonneg_iff.mp hpos) (Word.toInt_lt_width_iff.mp hlt)
  simp only [applyInt]
  rw [if_pos hy]
  exact (exact_eq_ok_iff.mpr (Word.toInt_shiftRight x hy)).symm

/-- A shift that leaves nothing of a word, or goes the other way, is refused. -/
theorem applyInt_shift_of_not {op : BinaryOp} (hop : op = .shiftLeft ∨ op = .shiftRight)
    (hy : ¬ (0 ≤ y.toInt ∧ y.toInt < 64)) :
    applyInt op x y = .error (.shiftOutOfRange y) := by
  rw [Word.toInt_nonneg_iff, Word.toInt_lt_width_iff] at hy
  rcases hop with rfl | rfl <;> exact if_neg hy

end Number

end Abacus
