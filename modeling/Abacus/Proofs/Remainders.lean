import Mathlib.Data.Int.ModEq
import Abacus.Proofs.ExactIntegers

/-!
# Remainders

The remainder of a division that is rounded down has the sign of the divisor, if it is not zero.
That fixes it: among the integers that are congruent to `m` modulo `n` there is exactly one between
zero and `n` (`isFloorRemainder_fmod`, `IsFloorRemainder.unique`).  It lies so near to zero that
there is a word for it whenever there is one for `n` (`IsFloorRemainder.inRange`).

## The pair without an answer

All the same the calculator does not always answer.  It forms the remainder together with the
truncated quotient, and refuses where that quotient does not fit.  There is one such pair of words,
the least one and `-1` (`Word.inRange_tdiv_iff`): the quotient would be `2 ^ 63`.  The remainder of
this pair is `0`, and it is reported as an overflow.
-/

namespace Abacus

namespace Number

/-- The remainder of `m` by `n` that has the sign of `n`. -/
structure IsFloorRemainder (m n r : Int) : Prop where
  congruent : r ≡ m [ZMOD n]
  of_pos : 0 < n → 0 ≤ r ∧ r < n
  of_neg : n < 0 → n < r ∧ r ≤ 0

/-- Rounding the quotient down leaves this remainder. -/
theorem isFloorRemainder_fmod (m : Int) {n : Int} (hn : n ≠ 0) :
    IsFloorRemainder m n (m.fmod n) where
  congruent := by
    rw [Int.modEq_iff_dvd]
    exact ⟨m.fdiv n, sub_eq_iff_eq_add'.mpr (Int.fmod_add_mul_fdiv m n).symm⟩
  of_pos h := ⟨Int.fmod_nonneg_of_pos m h, Int.fmod_lt_of_pos m h⟩
  of_neg h := by
    -- The remainder that is never negative, moved down by `n` unless it is zero.
    have hnonneg := Int.emod_nonneg m hn
    have hlt := Int.emod_lt_of_neg m h
    rw [Int.fmod_eq_emod]
    split
    next hdvd =>
      have hzero : m % n = 0 := Int.emod_eq_zero_of_dvd (hdvd.resolve_left (not_le.mpr h))
      omega
    next hdvd =>
      have hne : m % n ≠ 0 := fun hzero => hdvd (.inr (Int.dvd_of_emod_eq_zero hzero))
      omega

namespace IsFloorRemainder

variable {m n r : Int}

theorem natAbs_lt (h : IsFloorRemainder m n r) (hn : n ≠ 0) : r.natAbs < n.natAbs := by
  rcases lt_or_gt_of_ne hn with hneg | hpos
  · have := h.of_neg hneg
    omega
  · have := h.of_pos hpos
    omega

/-- There is only one such remainder. -/
theorem unique (h : IsFloorRemainder m n r) (hn : n ≠ 0) {s : Int} (hs : IsFloorRemainder m n s) :
    s = r := by
  have hdvd : n ∣ r - s := (hs.congruent.trans h.congruent.symm).dvd
  have hsmall : (r - s).natAbs < n.natAbs := by
    rcases lt_or_gt_of_ne hn with hneg | hpos
    · have := h.of_neg hneg
      have := hs.of_neg hneg
      omega
    · have := h.of_pos hpos
      have := hs.of_pos hpos
      omega
  have hzero := Int.eq_zero_of_dvd_of_natAbs_lt_natAbs hdvd hsmall
  omega

/-- The remainder by a word is one. -/
theorem inRange (h : IsFloorRemainder m n r) (hn : n ≠ 0) (hrange : InRange n) : InRange r := by
  have hlt := h.natAbs_lt hn
  unfold InRange at hrange ⊢
  omega

end IsFloorRemainder

/-- A quotient that is answered is the one rounded down. -/
theorem applyInt_floorDiv_eq_ok {x y : Int64} (hy : y.toInt ≠ 0) {q : Number}
    (h : applyInt .floorDiv x y = .ok q) : ∃ w, q = .int w ∧ w.toInt = x.toInt.fdiv y.toInt := by
  rw [applyInt_floorDiv hy] at h
  by_cases hrange : InRange (x.toInt.fdiv y.toInt)
  · obtain ⟨w, hw, hvalue⟩ := exact_of_inRange (.binary .floorDiv) hrange
    exact ⟨w, Except.ok.inj (h.symm.trans hw), hvalue⟩
  · rw [exact_of_not_inRange hrange] at h
    cases h

end Number

namespace Expr

open Number (IsFloorRemainder exact_of_inRange inRange_toInt isFloorRemainder_fmod)

/-- **A remainder is answered, except for one pair.**  Where both operands are integers and the
divisor is not zero:

* Unless the least word is divided by `-1`, the answer is an integer, it is the remainder with the
  sign of the divisor, and no other integer is.  With a quotient that is rounded down, if that is
  answered too, it makes up the dividend.
* The least word by `-1` is reported as an overflow, although its remainder is `0`. -/
theorem remainder_answered (bindings : Dict Number) {left right : Expr} {x y : Int64}
    (hleft : left.eval bindings = .ok (.int x)) (hright : right.eval bindings = .ok (.int y))
    (hy : y ≠ 0) :
    (¬ (x = Int64.minValue ∧ y = -1) →
      ∃ r : Int64, (Expr.binary .mod left right).eval bindings = .ok (.int r) ∧
        IsFloorRemainder x.toInt y.toInt r.toInt ∧
        (∀ s, IsFloorRemainder x.toInt y.toInt s → s = r.toInt) ∧
        ∀ q, (Expr.binary .floorDiv left right).eval bindings = .ok q →
          ∃ w : Int64, q = .int w ∧ x.toInt = y.toInt * w.toInt + r.toInt) ∧
    (x = Int64.minValue ∧ y = -1 →
      (Expr.binary .mod left right).eval bindings = .error (.overflow (.binary .mod)) ∧
        IsFloorRemainder x.toInt y.toInt 0) := by
  have hne : y.toInt ≠ 0 := fun h => hy (Int64.toInt_inj.mp h)
  have hmod : (Expr.binary .mod left right).eval bindings = Number.applyInt .mod x y := by
    simp only [eval, hleft, hright]
    rfl
  have hdiv : (Expr.binary .floorDiv left right).eval bindings = Number.applyInt .floorDiv x y := by
    simp only [eval, hleft, hright]
    rfl
  have hfloor := isFloorRemainder_fmod x.toInt hne
  rw [hmod, hdiv, Number.applyInt_mod_eq hne]
  refine ⟨fun hpair => ?_, fun hpair => ⟨if_pos hpair, ?_⟩⟩
  · obtain ⟨r, hr, hvalue⟩ :=
      exact_of_inRange (.binary .mod) (hfloor.inRange hne (inRange_toInt y))
    rw [if_neg hpair]
    refine ⟨r, hr, hvalue ▸ hfloor, fun s hs => ?_, fun q hq => ?_⟩
    · rw [hvalue]
      exact hfloor.unique hne hs
    · obtain ⟨w, rfl, hw⟩ := Number.applyInt_floorDiv_eq_ok hne hq
      exact ⟨w, rfl, by rw [hw, hvalue, Int.mul_fdiv_add_fmod]⟩
  · obtain ⟨rfl, rfl⟩ := hpair
    exact hfloor

/-- The remainder of `7` by `-3` is `-2`, and that of the least word by `-1` is missing. -/
theorem remainder_answered_minValue :
    (∃ r : Int64, (Expr.binary .mod (.number (.int 7)) (.number (.int (-3)))).eval {} =
        .ok (.int r) ∧ r.toInt = -2) ∧
      (Expr.binary .mod (.number (.int Int64.minValue)) (.number (.int (-1)))).eval {} =
        .error (.overflow (.binary .mod)) ∧
      IsFloorRemainder Int64.minValue.toInt (-1) 0 := by
  refine ⟨?_, (remainder_answered {} rfl rfl (by decide)).2 ⟨rfl, rfl⟩⟩
  have hleft : (Expr.number (.int 7)).eval {} = .ok (.int 7) := rfl
  have hright : (Expr.number (.int (-3))).eval {} = .ok (.int (-3)) := rfl
  obtain ⟨r, hr, -, hunique, -⟩ := (remainder_answered {} hleft hright (by decide)).1 (by decide)
  refine ⟨r, hr, (hunique (-2) ⟨?_, ?_, ?_⟩).symm⟩ <;> decide

end Expr

end Abacus
