import Mathlib.Tactic.Ring
import Abacus.Json.Number
import Abacus.Proofs.JsonText
import Abacus.Proofs.ShortestDecimal

/-!
# Numbers as they are written

A numeral is a row of digits with a point in it and perhaps a power of ten behind it.
Leave out the point and correct the power of ten for it: what remains is a natural number,
the significand, and a power.  This is what the reader of JSON makes of a numeral before
it calculates, and it is how the conventions of the printer can be looked through, whatever
they do with the point (`Numeral.significand`, `Numeral.power`).

Integers are written as their digits and read back as they are.  The numeral of a real
stands for the shortest decimal of its magnitude, and its significand is small enough to be
read digit by digit.
-/

namespace Abacus

open Json (WellFormed digitsValue)

/-! ## Runs of digits -/

namespace Json

theorem digitsValue_eq (ds : List Char) : digitsValue ds = Nat.ofDigitChars 10 ds 0 := by
  rw [digitsValue, Nat.ofDigitChars_eq_foldl]
  simp only [Nat.mul_comm]

theorem digitsValue_append (ds es : List Char) :
    digitsValue (ds ++ es) = digitsValue ds * 10 ^ es.length + digitsValue es := by
  rw [digitsValue_eq, digitsValue_eq, digitsValue_eq, Nat.ofDigitChars_append,
    Nat.ofDigitChars_eq_ofDigitChars_zero, Nat.mul_comm]

theorem digitsValue_zeros (n : Nat) : digitsValue (List.replicate n '0') = 0 := by
  rw [digitsValue_eq, Nat.ofDigitChars_replicate_zero, Nat.mul_zero]

theorem digitsValue_toDigits (n : Nat) : digitsValue (Nat.toDigits 10 n) = n := by
  rw [digitsValue_eq, Nat.ofDigitChars_ten_toDigits]

/-- Digits are followed by their last zeros. -/
theorem exists_eq_append_zeros (ds : List Char) :
    ∃ t, ds = (ds.reverse.dropWhile (· == '0')).reverse ++ List.replicate t '0' := by
  refine ⟨(ds.reverse.takeWhile (· == '0')).length, ?_⟩
  have hsplit := List.takeWhile_append_dropWhile (p := (· == '0')) (l := ds.reverse)
  have hzeros : ds.reverse.takeWhile (· == '0') =
      List.replicate (ds.reverse.takeWhile (· == '0')).length '0' := by
    refine List.eq_replicate_of_mem fun d hd => ?_
    exact eq_of_beq (List.all_eq_true.mp List.all_takeWhile d hd)
  have hreverse := congrArg List.reverse hsplit
  rw [List.reverse_append, List.reverse_reverse, hzeros, List.reverse_replicate] at hreverse
  exact hreverse.symm

theorem digit_toNat_lt {c : Char} (h : c.isDigit) : c.toNat - '0'.toNat < 10 := by
  have := Char.isDigit_iff_toNat.mp h
  have hzero : '0'.toNat = 48 := rfl
  have hnine : '9'.toNat = 57 := rfl
  omega

theorem digitsValue_lt {ds : List Char} (h : ∀ c ∈ ds, c.isDigit) :
    digitsValue ds < 10 ^ ds.length := by
  induction ds with
  | nil => decide
  | cons c ds ih =>
    have htail := ih fun d hd => h d (List.mem_cons_of_mem _ hd)
    have hhead := digit_toNat_lt (h c List.mem_cons_self)
    have hone : digitsValue [c] = c.toNat - '0'.toNat := by simp [digitsValue]
    rw [← List.singleton_append, digitsValue_append, hone, List.length_append, Nat.pow_add]
    simp only [List.length_singleton, Nat.pow_one]
    nlinarith

/-- A digit run that fits into the significand is taken whole. -/
theorem takeDigits_eq (ds : List Char) (s : Nat)
    (h : s * 10 ^ ds.length + digitsValue ds < 0x10000000000000000) :
    takeDigits s ds = (s * 10 ^ ds.length + digitsValue ds, 0) := by
  induction ds generalizing s with
  | nil => simp [takeDigits, digitsValue]
  | cons c ds ih =>
    have hone : digitsValue [c] = c.toNat - '0'.toNat := by simp [digitsValue]
    have hvalue : s * 10 ^ (c :: ds).length + digitsValue (c :: ds) =
        (s * 10 + (c.toNat - '0'.toNat)) * 10 ^ ds.length + digitsValue ds := by
      rw [← List.singleton_append, digitsValue_append, hone, List.length_append, Nat.pow_add]
      simp only [List.length_singleton, Nat.pow_one]
      ring
    rw [hvalue] at h ⊢
    have hnext : s * 10 + (c.toNat - '0'.toNat) < 0x10000000000000000 := by
      have : 0 < 10 ^ ds.length := Nat.pow_pos (by decide)
      nlinarith
    simp only [takeDigits]
    rw [if_pos hnext, ih _ h]

/-! ## Integers -/

/-- The first digit of a number other than zero is not zero. -/
theorem toDigits_ne_zero_cons {n : Nat} (hn : n ≠ 0) (ds : List Char) :
    Nat.toDigits 10 n ≠ '0' :: ds := by
  intro h
  have hvalue := digitsValue_toDigits n
  have hlow := Decimal.pow_digitCount_le hn
  have hdigits : ∀ c ∈ ds, c.isDigit := fun c hc =>
    Nat.isDigit_of_mem_toDigits (by decide) le_rfl (h ▸ List.mem_cons_of_mem _ hc)
  -- Without its leading zero the run would be too short for the number.
  have hcount : Decimal.digitCount n - 1 = ds.length := by
    rw [Decimal.digitCount, if_neg hn, h]
    rfl
  have hzero : digitsValue ['0'] = 0 := by decide
  rw [h, ← List.singleton_append, digitsValue_append, hzero, Nat.zero_mul, Nat.zero_add] at hvalue
  have hlt := digitsValue_lt hdigits
  rw [hcount] at hlow
  omega

theorem no_leading_zero_toDigits (n : Nat) (d : Char) (ds : List Char) :
    Nat.toDigits 10 n ≠ '0' :: d :: ds := by
  by_cases hn : n = 0
  · rw [hn, Nat.toDigits_zero]
    simp
  · exact toDigits_ne_zero_cons hn _

theorem wellFormed_ofInt (n : Int) : WellFormed (Decimal.Numeral.ofInt n) where
  whole_ne_nil := Nat.toDigits_ne_nil
  whole_digits _ hc := Nat.isDigit_of_mem_toDigits (by decide) le_rfl hc
  no_leading_zero d ds := no_leading_zero_toDigits _ d ds
  fraction_digits _ hc := absurd hc List.not_mem_nil
  exponent_ne_nil _ _ h := by cases h
  exponent_digits _ _ h := by cases h

/-- **An integer is read as itself.** -/
theorem number?_ofInt (w : Int64) : number? (.ofInt w.toInt) = some (.int w) := by
  have hvalue : digitsValue (Decimal.Numeral.ofInt w.toInt).whole = w.toInt.natAbs :=
    digitsValue_toDigits _
  have hsign : (Decimal.Numeral.ofInt w.toInt).negative = true ↔ w.toInt < 0 := decide_eq_true_iff
  have hplain : ((Decimal.Numeral.ofInt w.toInt).fraction.isEmpty &&
      (Decimal.Numeral.ofInt w.toInt).exponent.isNone) = true := rfl
  have hminus : ¬ ((Decimal.Numeral.ofInt w.toInt).negative &&
      decide (w.toInt.natAbs = 0)) = true := by
    rw [Bool.and_eq_true, hsign, decide_eq_true_eq]
    omega
  have hsigned : (if (Decimal.Numeral.ofInt w.toInt).negative = true
      then -(w.toInt.natAbs : Int) else w.toInt.natAbs) = w.toInt := by
    split
    next h => have := hsign.mp h; omega
    next h => have := mt hsign.mpr h; omega
  unfold number?
  rw [if_pos hplain, hvalue]
  simp only [if_neg hminus, hsigned, Number.fit?_toInt]

end Json

/-! ## Significand and power -/

namespace Decimal.Numeral

/-- The digits of a numeral without the point between them. -/
def significand (n : Numeral) : Nat := digitsValue (n.whole ++ n.fraction)

/-- The power of ten that is written behind a numeral. -/
def written (n : Numeral) : Int :=
  match n.exponent with
  | none => 0
  | some (negative, ds) => if negative then -digitsValue ds else digitsValue ds

/-- The power of ten that the significand counts. -/
def power (n : Numeral) : Int := n.written - n.fraction.length

/-- The number that a numeral stands for, without its sign. -/
def value (n : Numeral) : ℚ := n.significand * 10 ^ n.power

/-- The numeral is read as a significand and a power of ten, without loss. -/
structure Small (n : Numeral) : Prop where
  significand_lt : n.significand < 2 ^ 64
  written_lt : n.written.natAbs < 2 ^ 31

end Decimal.Numeral

namespace Json

open Decimal (Numeral)

/-- **A small numeral is read by scaling its significand.** -/
theorem magnitude?_eq {n : Numeral} (h : n.Small) :
    magnitude? n = scale (Float.ofNat n.significand) n.power := by
  have hsignificand := h.significand_lt
  have hwritten := h.written_lt
  rw [Numeral.significand, digitsValue_append] at hsignificand
  have hwhole : takeDigits 0 n.whole = (digitsValue n.whole, 0) := by
    have hpos : 0 < 10 ^ n.fraction.length := Nat.pow_pos (by decide)
    rw [takeDigits_eq _ _ (by nlinarith)]
    simp
  have hfraction : takeDigits (digitsValue n.whole) n.fraction = (n.significand, 0) := by
    rw [takeDigits_eq _ _ hsignificand, Numeral.significand, digitsValue_append]
  unfold magnitude? Numeral.power
  unfold Numeral.written at hwritten ⊢
  simp only [hwhole, hfraction]
  cases he : n.exponent with
  | none => simp
  | some e =>
    obtain ⟨negative, ds⟩ := e
    have hsmall : ¬ 0x80000000 ≤ digitsValue ds := by
      simp only [he] at hwritten
      split at hwritten <;> omega
    simp only [if_neg hsmall]
    congr 1
    split <;> simp <;> omega

end Json

namespace Decimal.Digits

/-- There are digits, and the first one is not zero. -/
structure Proper (d : Digits) : Prop where
  ne_nil : d.digits ≠ []
  isDigit : ∀ c ∈ d.digits, c.isDigit
  no_zero : ∀ ds, d.digits ≠ '0' :: ds

/-- The number that the digits stand for. -/
def value (d : Digits) : ℚ := digitsValue d.digits * 10 ^ (d.point - d.digits.length)

theorem toDigits_eq_append (c : Nat) (grid : Int) :
    ∃ t, Nat.toDigits 10 c = (ofScaled c grid).digits ++ List.replicate t '0' :=
  Json.exists_eq_append_zeros _

theorem ofScaled_spec {c : Nat} (hc : c ≠ 0) (grid : Int) :
    (ofScaled c grid).Proper ∧ (ofScaled c grid).value = c * 10 ^ grid ∧
      digitsValue (ofScaled c grid).digits ≤ c := by
  obtain ⟨t, ht⟩ := toDigits_eq_append c grid
  have hvalue : c = digitsValue (ofScaled c grid).digits * 10 ^ t := by
    have := Json.digitsValue_toDigits c
    rw [ht, Json.digitsValue_append, Json.digitsValue_zeros, List.length_replicate] at this
    omega
  have hlength : (Nat.toDigits 10 c).length = (ofScaled c grid).digits.length + t := by
    rw [ht, List.length_append, List.length_replicate]
  have hpoint : (ofScaled c grid).point = ((Nat.toDigits 10 c).length : Int) + grid := rfl
  refine ⟨⟨?_, ?_, ?_⟩, ?_, ?_⟩
  · intro hnil
    have hnone : digitsValue [] = 0 := rfl
    rw [hnil, hnone, Nat.zero_mul] at hvalue
    exact hc hvalue
  · intro d hd
    refine Nat.isDigit_of_mem_toDigits (by decide) le_rfl (n := c) ?_
    rw [ht]
    exact List.mem_append_left _ hd
  · intro ds hds
    rw [hds, List.cons_append] at ht
    exact Json.toDigits_ne_zero_cons hc _ ht
  · have hpower : (ofScaled c grid).point - (ofScaled c grid).digits.length = t + grid := by
      omega
    rw [value, hpower, zpow_add₀ (by norm_num), zpow_natCast, ← mul_assoc]
    congr 1
    exact_mod_cast hvalue.symm
  · have hpos : 0 < 10 ^ t := Nat.pow_pos (by decide)
    nlinarith

theorem digitsValue_zeros_append (n : Int) (ds : List Char) :
    digitsValue (zeros n ++ ds) = digitsValue ds := by
  rw [zeros, Json.digitsValue_append, Json.digitsValue_zeros, Nat.zero_mul, Nat.zero_add]

theorem isDigit_of_mem_zeros {n : Int} {c : Char} (h : c ∈ zeros n) : c.isDigit := by
  rw [List.eq_of_mem_replicate h]
  decide

/-- A numeral is small if its digits are few. -/
theorem small_of_lt {n : Numeral} {e : Nat} (he : e ≤ 18)
    (h : n.significand ≤ 10 ^ e) (hwritten : n.written.natAbs < 2 ^ 31) : n.Small := by
  refine ⟨?_, hwritten⟩
  have := Nat.pow_le_pow_right (n := 10) (by decide) he
  omega

/-- The numeral has some digits behind a point and no power of ten, and stands for the
number that the digits `d` stand for. -/
structure Positioned (n : Numeral) (d : Digits) : Prop where
  formed : WellFormed n
  fraction_ne_nil : n.fraction ≠ []
  written : n.written = 0
  value : n.value = d.value
  significand_lt : n.significand < 10 ^ max d.digits.length (d.point.toNat + 1)

theorem Proper.digitsValue_lt {d : Digits} (hd : d.Proper) :
    digitsValue d.digits < 10 ^ max d.digits.length (d.point.toNat + 1) :=
  lt_of_lt_of_le (Json.digitsValue_lt hd.isDigit)
    (Nat.pow_le_pow_right (by decide) (le_max_left _ _))

/-- A run that starts like the digits does not start with a zero. -/
theorem Proper.ne_zero_cons {d : Digits} (hd : d.Proper) {cs : List Char}
    (hcs : cs.head? = d.digits.head?) (ds : List Char) : cs ≠ '0' :: ds := by
  obtain ⟨e, es, hes⟩ := List.exists_cons_of_ne_nil hd.ne_nil
  rintro rfl
  rw [hes, List.head?_cons, List.head?_cons] at hcs
  exact hd.no_zero es (by rw [hes, Option.some.inj hcs])

/-- All digits stand behind the point. -/
theorem positioned_behind {d : Digits} (hd : d.Proper) (negative : Bool) (hpoint : d.point ≤ 0) :
    Positioned { negative, whole := ['0'], fraction := zeros (-d.point) ++ d.digits } d := by
  have hsignificand : digitsValue (['0'] ++ (zeros (-d.point) ++ d.digits)) =
      digitsValue d.digits := by
    have hzero : digitsValue ['0'] = 0 := by decide
    rw [Json.digitsValue_append, hzero, Nat.zero_mul, Nat.zero_add, digitsValue_zeros_append]
  refine ⟨⟨List.cons_ne_nil _ _, ?_, by simp, ?_, by simp, by simp⟩, ?_, rfl, ?_, ?_⟩
  · intro c hc
    rw [List.mem_singleton.mp hc]
    decide
  · intro c hc
    rcases List.mem_append.mp hc with hc | hc
    · exact isDigit_of_mem_zeros hc
    · exact hd.isDigit c hc
  · exact List.append_ne_nil_of_right_ne_nil _ hd.ne_nil
  · rw [Numeral.value, Numeral.significand, hsignificand, value]
    congr 2
    simp only [Numeral.power, Numeral.written, zeros, List.length_append,
      List.length_replicate]
    omega
  · rw [Numeral.significand, hsignificand]
    exact hd.digitsValue_lt

/-- All digits stand before the point. -/
theorem positioned_before {d : Digits} (hd : d.Proper) (negative : Bool)
    (hwhole : (d.digits.length : Int) ≤ d.point) :
    Positioned { negative, whole := d.digits ++ zeros (d.point - d.digits.length),
                 fraction := ['0'] } d := by
  obtain ⟨z, hz⟩ : ∃ z : Nat, d.point = d.digits.length + z :=
    ⟨(d.point - d.digits.length).toNat, by omega⟩
  have hpower : d.point - d.digits.length = z := by omega
  have hsignificand : digitsValue (d.digits ++ zeros z ++ ['0']) =
      digitsValue d.digits * 10 ^ (z + 1) := by
    have hzero : ['0'] = List.replicate 1 '0' := rfl
    rw [zeros, Int.toNat_natCast, hzero, List.append_assoc, ← List.replicate_add,
      Json.digitsValue_append, Json.digitsValue_zeros, List.length_replicate, Nat.add_zero]
  rw [hpower]
  refine ⟨⟨?_, ?_, ?_, ?_, by simp, by simp⟩, List.cons_ne_nil _ _, rfl, ?_, ?_⟩
  · exact List.append_ne_nil_of_left_ne_nil hd.ne_nil _
  · intro c hc
    rcases List.mem_append.mp hc with hc | hc
    · exact hd.isDigit c hc
    · exact isDigit_of_mem_zeros hc
  · intro c cs
    exact hd.ne_zero_cons (List.head?_append_of_ne_nil _ hd.ne_nil) _
  · intro c hc
    rw [List.mem_singleton.mp hc]
    decide
  · rw [Numeral.value, Numeral.significand, hsignificand, value, hpower, zpow_natCast]
    simp only [Numeral.power, Numeral.written, List.length_singleton]
    push_cast
    rw [pow_succ, zpow_neg_one]
    field_simp
  · have hstep : d.digits.length + (z + 1) ≤ max d.digits.length (d.point.toNat + 1) := by
      omega
    rw [Numeral.significand, hsignificand]
    calc digitsValue d.digits * 10 ^ (z + 1)
        < 10 ^ d.digits.length * 10 ^ (z + 1) :=
          Nat.mul_lt_mul_of_pos_right (Json.digitsValue_lt hd.isDigit) (Nat.pow_pos (by decide))
      _ = 10 ^ (d.digits.length + (z + 1)) := (Nat.pow_add ..).symm
      _ ≤ _ := Nat.pow_le_pow_right (by decide) hstep

/-- The point stands among the digits. -/
theorem positioned_among {d : Digits} (hd : d.Proper) (negative : Bool) (hpoint : 0 < d.point)
    (hwhole : d.point < d.digits.length) :
    Positioned { negative, whole := d.digits.take d.point.toNat,
                 fraction := d.digits.drop d.point.toNat } d := by
  have hsplit := List.take_append_drop d.point.toNat d.digits
  have hpos : d.point.toNat ≠ 0 := by omega
  refine ⟨⟨?_, ?_, ?_, ?_, by simp, by simp⟩, ?_, rfl, ?_, ?_⟩
  · intro hnil
    rcases List.take_eq_nil_iff.mp hnil with h | h
    · exact hpos h
    · exact hd.ne_nil h
  · exact fun c hc => hd.isDigit c (List.mem_of_mem_take hc)
  · intro c cs
    exact hd.ne_zero_cons (List.head?_take.trans (if_neg hpos)) _
  · exact fun c hc => hd.isDigit c (List.mem_of_mem_drop hc)
  · intro hnil
    have := List.drop_eq_nil_iff.mp hnil
    omega
  · rw [Numeral.value, Numeral.significand, hsplit, value]
    congr 2
    simp only [Numeral.power, Numeral.written, List.length_drop]
    omega
  · rw [Numeral.significand, hsplit]
    exact hd.digitsValue_lt

/-- **The digits with the point set keep their value**, and they are followed by a zero
where there would be none behind the point. -/
theorem positioned_positional {d : Digits} (hd : d.Proper) (negative : Bool) :
    Positioned (d.positional negative ['0']) d := by
  unfold positional
  split
  next hpoint => exact positioned_behind hd negative hpoint
  next hpoint =>
    split
    next hwhole => exact positioned_before hd negative hwhole
    next hwhole => exact positioned_among hd negative (by omega) (by omega)

/-- **The digits with a power of ten behind them keep their value.** -/
theorem scientific_spec {d : Digits} (hd : d.Proper) (negative : Bool) :
    WellFormed (d.scientific negative) ∧ (d.scientific negative).exponent ≠ none ∧
      (d.scientific negative).written = d.point - 1 ∧
      (d.scientific negative).value = d.value ∧
      (d.scientific negative).significand = digitsValue d.digits := by
  have hsplit := List.take_append_drop 1 d.digits
  obtain ⟨e, es, hes⟩ := List.exists_cons_of_ne_nil hd.ne_nil
  have hwritten : (d.scientific negative).written = d.point - 1 := by
    simp only [scientific, Numeral.written, Json.digitsValue_toDigits]
    split
    next h => have := of_decide_eq_true h; omega
    next h => have := of_decide_eq_false (Bool.eq_false_iff.mpr h); omega
  refine ⟨⟨?_, ?_, ?_, ?_, ?_, ?_⟩, by simp [scientific], hwritten, ?_, ?_⟩
  · simp [scientific, hes]
  · exact fun c hc => hd.isDigit c (List.mem_of_mem_take hc)
  · intro c cs h
    simp [scientific, hes] at h
  · exact fun c hc => hd.isDigit c (List.mem_of_mem_drop hc)
  · intro minus ds h
    simp only [scientific, Option.some.injEq, Prod.mk.injEq] at h
    rw [← h.2]
    exact Nat.toDigits_ne_nil
  · intro minus ds h c hc
    simp only [scientific, Option.some.injEq, Prod.mk.injEq] at h
    rw [← h.2] at hc
    exact Nat.isDigit_of_mem_toDigits (by decide) le_rfl hc
  · rw [Numeral.value, Numeral.power, hwritten]
    simp only [Numeral.significand, scientific, hsplit, value, List.length_drop]
    congr 2
    have : 0 < d.digits.length := List.length_pos_iff.mpr hd.ne_nil
    omega
  · simp only [Numeral.significand, scientific, hsplit]

end Decimal.Digits

/-! ## Reals -/

namespace Json

open Decimal (Binary Numeral)

/-- The power of ten just above a double is no further from one than the doubles are. -/
theorem magnitude_range {b : Binary} (hb : b.Canonical) (he : b.exponent ≤ 971)
    (hm : b.mantissa ≠ 0) : -324 < b.magnitude ∧ b.magnitude ≤ 309 := by
  obtain ⟨hlow, hhigh⟩ := Binary.magnitude_bounds hm
  have hmantissa : (1 : ℚ) ≤ b.mantissa := by exact_mod_cast Nat.pos_of_ne_zero hm
  have hlt : (b.mantissa : ℚ) < 2 ^ 53 := by exact_mod_cast hb.lt
  constructor
  · have hleast : (10 : ℚ) ^ (-324 : Int) ≤ b.value := by
      calc (10 : ℚ) ^ (-324 : Int)
          ≤ 2 ^ (-1074 : Int) := by
            have h : 2 ^ 1074 ≤ 10 ^ 324 := by decide +kernel
            have hcast : (2 : ℚ) ^ (1074 : Nat) ≤ 10 ^ (324 : Nat) := by exact_mod_cast h
            rw [zpow_neg, zpow_neg]
            exact inv_anti₀ (by positivity) (by exact_mod_cast hcast)
        _ ≤ 2 ^ b.exponent := zpow_le_zpow_right₀ one_le_two hb.least_le
        _ ≤ b.value := le_mul_of_one_le_left (by positivity) hmantissa
    exact (zpow_lt_zpow_iff_right₀ (by norm_num)).mp (lt_of_le_of_lt hleast hhigh)
  · have hmost : b.value < (10 : ℚ) ^ (309 : Int) := by
      calc b.value
          < 2 ^ 53 * 2 ^ (971 : Int) :=
            mul_lt_mul hlt (zpow_le_zpow_right₀ one_le_two he) (by positivity) (by norm_num)
        _ = 2 ^ (1024 : Nat) := by
            rw [← zpow_natCast, ← zpow_natCast, ← zpow_add₀ two_ne_zero]
            norm_num
        _ ≤ (10 : ℚ) ^ (309 : Int) := by
            have h : 2 ^ 1024 ≤ 10 ^ 309 := by decide +kernel
            exact_mod_cast h
    have := (zpow_lt_zpow_iff_right₀ (by norm_num)).mp (lt_of_le_of_lt hlow hmost)
    omega

/-- Zero is written with a zero behind the point. -/
theorem zeroNumeral_spec (negative : Bool) :
    WellFormed { negative, whole := ['0'], fraction := ['0'] } ∧
      Numeral.significand { negative, whole := ['0'], fraction := ['0'] } = 0 ∧
      Numeral.written { negative, whole := ['0'], fraction := ['0'] } = 0 := by
  have hdigit : ∀ c ∈ ['0'], c.isDigit := List.forall_mem_singleton.mpr rfl
  have hsignificand : digitsValue ['0', '0'] = 0 := rfl
  exact ⟨⟨List.cons_ne_nil _ _, hdigit, by simp, hdigit, by simp, by simp⟩, hsignificand, rfl⟩

/-- What a numeral has to be to stand for a real. -/
structure Writes (n : Numeral) (x : Double) : Prop where
  formed : WellFormed n
  small : n.Small
  /-- Nothing that looks like an integer. -/
  marked : n.fraction ≠ [] ∨ n.exponent ≠ none
  sign : n.negative = x.isNegative
  /-- The decimal is one of the numbers that round to the real. -/
  covers : (Binary.ofDouble x).Covers n.value
  zero : (Binary.ofDouble x).mantissa = 0 → n.significand = 0 ∧ n.power = -1

section Numerals

variable {x : Double} {d : Decimal.Digits}

theorem writes_zero (hx : x.isFinite) (hm : (Binary.ofDouble x).mantissa = 0) :
    Writes { negative := x.isNegative, whole := ['0'], fraction := ['0'] } x := by
  obtain ⟨hformed, hsignificand, hwritten⟩ := zeroNumeral_spec x.isNegative
  have hzero : (Binary.ofDouble x).value = 0 := by simp [Binary.value, hm]
  refine ⟨hformed, ⟨?_, ?_⟩, .inl (List.cons_ne_nil _ _), rfl, ?_, fun _ => ⟨hsignificand, rfl⟩⟩
  · rw [hsignificand]
    decide
  · rw [hwritten]
    decide
  · rw [Numeral.value, hsignificand, Nat.cast_zero, zero_mul, ← hzero]
    exact (Double.canonical_ofDouble hx).1.covers_value

theorem writes_positional (hm : (Binary.ofDouble x).mantissa ≠ 0) (hd : d.Proper)
    (hlength : d.digits.length ≤ 18) (hpoint : d.point ≤ 16)
    (hcovers : (Binary.ofDouble x).Covers d.value) :
    Writes (d.positional x.isNegative ['0']) x := by
  obtain ⟨hformed, hfraction, hwritten, hsame, hlt⟩ :=
    Decimal.Digits.positioned_positional hd x.isNegative
  refine ⟨hformed, Decimal.Digits.small_of_lt (by omega) hlt.le ?_, .inl hfraction, ?_,
    hsame ▸ hcovers, fun h => absurd h hm⟩
  · rw [hwritten]
    decide
  · unfold Decimal.Digits.positional
    split
    · rfl
    · split <;> rfl

theorem writes_scientific (hm : (Binary.ofDouble x).mantissa ≠ 0) (hd : d.Proper)
    (hdigits : digitsValue d.digits ≤ 10 ^ 17) (hpoint : d.point.natAbs < 2 ^ 30)
    (hcovers : (Binary.ofDouble x).Covers d.value) :
    Writes (d.scientific x.isNegative) x := by
  obtain ⟨hformed, hexponent, hwritten, hsame, hsignificand⟩ :=
    Decimal.Digits.scientific_spec hd x.isNegative
  refine ⟨hformed, Decimal.Digits.small_of_lt (e := 17) (by decide) (hsignificand ▸ hdigits) ?_,
    .inr hexponent, rfl, hsame ▸ hcovers, fun h => absurd h hm⟩
  rw [hwritten]
  omega

end Numerals

/-- **The numeral of a real stands for a decimal that rounds to it.** -/
theorem writes_numeral {x : Double} (hx : x.isFinite) : Writes (realLayout.numeral x) x := by
  obtain ⟨hb, he⟩ := Double.canonical_ofDouble hx
  unfold Decimal.Layout.numeral
  by_cases hm : (Binary.ofDouble x).mantissa = 0
  · simp only [if_pos hm]
    exact writes_zero hx hm
  · obtain ⟨c, grid, hshortest, hcovers, hpos, hle, hgrid⟩ :=
      Binary.exists_shortest hb hm realLayout.tie
    obtain ⟨hproper, hvalue, hdigits⟩ := Decimal.Digits.ofScaled_spec hpos.ne' grid
    rw [← hvalue] at hcovers
    have hrange := magnitude_range hb he hm
    have hcount : (Nat.toDigits 10 c).length ≤ 18 :=
      (Nat.length_toDigits_le_iff (by decide) (by decide)).mpr (by omega)
    have hpoint : (Decimal.Digits.ofScaled c grid).point =
        ((Nat.toDigits 10 c).length : Int) + grid := rfl
    obtain ⟨t, ht⟩ := Decimal.Digits.toDigits_eq_append c grid
    simp only [if_neg hm, hshortest]
    split
    next hpositional =>
      refine writes_positional hm hproper ?_ ?_ hcovers
      · rw [ht, List.length_append] at hcount
        omega
      · simp only [realLayout, Bool.and_eq_true, decide_eq_true_eq] at hpositional
        exact hpositional.2
    next => exact writes_scientific hm hproper (by omega) (by omega) hcovers

end Json

end Abacus
