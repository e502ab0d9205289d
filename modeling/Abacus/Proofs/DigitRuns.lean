import Mathlib.Data.List.Induction
import Mathlib.Tactic.IntervalCases
import Abacus.Text.Digit

/-!
# The numbers that digits write

A run of digits is read from the left, and what has been read is multiplied by the base before the
next digit is added.  `Writes` says the same as a relation, so that a run writes at most one number
and reading is deciding (`readNat?_eq_some_iff`).

Every number is written in every base from two to sixteen (`writes_toDigits`), and zeros in front
change nothing (`readNat?_zeros`).
-/

namespace Abacus.Text

/-- The character is the digit with this value, in lower or in upper case. -/
def IsDigit (base : Nat) (c : Char) (d : Nat) : Prop :=
  d < base ∧ ("0123456789abcdef".toList[d]? = some c ∨ "0123456789ABCDEF".toList[d]? = some c)

/-- The number that a nonempty run of digits writes. -/
inductive Writes (base : Nat) : List Char → Nat → Prop where
  | digit {c d} : IsDigit base c d → Writes base [c] d
  | concat {cs n c d} : Writes base cs n → IsDigit base c d →
      Writes base (cs ++ [c]) (base * n + d)

/-! ## Reading -/

theorem toNat_lt_of_digitValue? {c : Char} {d : Nat} (h : digitValue? c = some d) :
    c.toNat < 103 := by
  have hle : c ≤ '9' ∨ c ≤ 'f' ∨ c ≤ 'F' := by
    unfold digitValue? at h
    grind
  rcases hle with hle | hle | hle <;> have hle := UInt32.le_iff_toNat_le.mp hle <;>
    exact lt_of_le_of_lt hle (by decide)

/-- All digits are among the first characters, so they can be gone through. -/
theorem digitValue?_ofNat : ∀ k < 103, ∀ d ∈ digitValue? (Char.ofNat k),
    "0123456789abcdef".toList[d]? = some (Char.ofNat k) ∨
      "0123456789ABCDEF".toList[d]? = some (Char.ofNat k) := by
  decide

theorem digitValue?_eq_some_iff (c : Char) (d : Nat) :
    digitValue? c = some d ↔
      "0123456789abcdef".toList[d]? = some c ∨ "0123456789ABCDEF".toList[d]? = some c := by
  constructor
  · intro h
    have hdigit := digitValue?_ofNat c.toNat (toNat_lt_of_digitValue? h) d
    rw [Char.ofNat_toNat] at hdigit
    exact hdigit h
  · intro h
    have hd : d < 16 := by
      by_contra hlong
      have hlower : "0123456789abcdef".toList[d]? = none :=
        List.getElem?_eq_none (by simpa using hlong)
      have hupper : "0123456789ABCDEF".toList[d]? = none :=
        List.getElem?_eq_none (by simpa using hlong)
      rw [hlower, hupper] at h
      rcases h with h | h <;> cases h
    interval_cases d <;> rcases h with h | h <;> cases h <;> decide

theorem digitIn?_eq_some_iff (base : Nat) (c : Char) (d : Nat) :
    digitIn? base c = some d ↔ IsDigit base c d := by
  rw [digitIn?, Option.filter_eq_some_iff, digitValue?_eq_some_iff, IsDigit, decide_eq_true_iff,
    and_comm]

theorem readFrom_concat (base : Nat) (cs : List Char) (c : Char) (acc : Nat) :
    readFrom base acc (cs ++ [c]) =
      (readFrom base acc cs).bind fun n => (digitIn? base c).map (base * n + ·) := by
  induction cs generalizing acc with
  | nil => cases h : digitIn? base c <;> simp [readFrom, h]
  | cons b cs ih =>
    rw [List.cons_append]
    simp only [readFrom]
    cases digitIn? base b with
    | none => rfl
    | some d => exact ih _

/-- **Reading digits gives the number that they write**, and nothing for any other text. -/
theorem readNat?_eq_some_iff (base : Nat) (cs : List Char) (n : Nat) :
    readNat? base cs = some n ↔ Writes base cs n := by
  constructor
  · intro h
    induction cs using List.reverseRecOn generalizing n with
    | nil => cases h
    | append_singleton cs c ih =>
      rw [readNat?, if_neg (by simp), readFrom_concat, Option.bind_eq_some_iff] at h
      obtain ⟨m, hm, hlast⟩ := h
      obtain ⟨d, hd, rfl⟩ := Option.map_eq_some_iff.mp hlast
      rw [digitIn?_eq_some_iff] at hd
      cases cs with
      | nil =>
        obtain rfl : 0 = m := Option.some_inj.mp hm
        simpa using Writes.digit hd
      | cons b cs => exact .concat (ih m (by rw [readNat?, if_neg (by simp), hm])) hd
  · intro h
    induction h with
    | digit hd =>
      rw [← digitIn?_eq_some_iff] at hd
      simp [readNat?, readFrom, hd]
    | @concat cs n c d _ hd ih =>
      have hne : cs ≠ [] := by
        rintro rfl
        cases ih
      rw [← digitIn?_eq_some_iff] at hd
      rw [readNat?, if_neg (by simpa using hne)] at ih
      rw [readNat?, if_neg (by simp), readFrom_concat, ih, hd]
      rfl

theorem Writes.ne_nil {base : Nat} {cs : List Char} {n : Nat} (h : Writes base cs n) :
    cs ≠ [] := by
  cases h <;> simp

/-- What a run of digits is made of. -/
theorem Writes.isDigit_of_mem {base : Nat} {cs : List Char} {n : Nat} (h : Writes base cs n) :
    ∀ c ∈ cs, ∃ d, IsDigit base c d := by
  induction h with
  | digit hd => simpa using ⟨_, hd⟩
  | concat _ hd ih =>
    intro c hc
    rcases List.mem_append.mp hc with hc | hc
    · exact ih c hc
    · obtain rfl := List.mem_singleton.mp hc
      exact ⟨_, hd⟩

/-- Zeros in front do not count. -/
theorem readNat?_zeros {base : Nat} (hbase : 0 < base) (k : Nat) {cs : List Char} (hcs : cs ≠ []) :
    readNat? base (List.replicate k '0' ++ cs) = readNat? base cs := by
  have hzero : digitIn? base '0' = some 0 :=
    (digitIn?_eq_some_iff base '0' 0).mpr ⟨hbase, .inl rfl⟩
  induction k with
  | zero => rfl
  | succ k ih =>
    rw [← ih, List.replicate_succ, List.cons_append, readNat?, readNat?, if_neg (by simp),
      if_neg (by simp [hcs]), readFrom, hzero]
    rfl

/-! ## What digits are -/

/-- Digits are decimal digits or letters. -/
theorem isAlphanum_of_isDigit {base : Nat} {c : Char} {d : Nat} (h : IsDigit base c d) :
    c.isAlphanum = true := by
  have hlower : "0123456789abcdef".toList.all Char.isAlphanum = true := by decide
  have hupper : "0123456789ABCDEF".toList.all Char.isAlphanum = true := by decide
  rcases h.2 with hc | hc
  · exact List.all_eq_true.mp hlower c (List.mem_of_getElem? hc)
  · exact List.all_eq_true.mp hupper c (List.mem_of_getElem? hc)

theorem isAlphanum_of_writes {base n : Nat} {ds : List Char} (h : Writes base ds n) :
    ∀ c ∈ ds, c.isAlphanum = true := by
  intro c hc
  obtain ⟨d, hd⟩ := h.isDigit_of_mem c hc
  exact isAlphanum_of_isDigit hd

/-- A digit of a base up to ten is a decimal digit. -/
theorem isDigit_of_base_le {base : Nat} (hbase : base ≤ 10) {c : Char} {d : Nat}
    (h : IsDigit base c d) : c.isDigit = true := by
  obtain ⟨hd, hc⟩ := h
  have hd10 : d < 10 := by omega
  interval_cases d <;> rcases hc with hc | hc <;> cases hc <;> decide

/-- The digits of a base up to ten are decimal digits. -/
theorem isDigit_of_writes {base : Nat} (hbase : base ≤ 10) {ds : List Char} {n : Nat}
    (h : Writes base ds n) : ∀ c ∈ ds, c.isDigit = true := by
  intro c hc
  obtain ⟨d, hd⟩ := h.isDigit_of_mem c hc
  exact isDigit_of_base_le hbase hd

/-! ## Writing -/

theorem isDigit_digitChar {base d : Nat} (hd : d < base) (hbase : base ≤ 16) :
    IsDigit base (Nat.digitChar d) d := by
  refine ⟨hd, .inl ?_⟩
  have hd16 : d < 16 := by omega
  interval_cases d <;> decide

/-- **Every number is written by its digits.** -/
theorem writes_toDigits {base : Nat} (hlow : 1 < base) (hhigh : base ≤ 16) (n : Nat) :
    Writes base (Nat.toDigits base n) n := by
  induction n using Nat.strongRecOn with
  | ind n ih =>
    rw [Nat.toDigits_eq_if hlow]
    split
    next hn => exact .digit (isDigit_digitChar hn hhigh)
    next hn =>
      have hpos : 0 < n := by omega
      have hlast := isDigit_digitChar (Nat.mod_lt n (by omega)) hhigh
      have hwrites := Writes.concat (ih _ (Nat.div_lt_self hpos hlow)) hlast
      rwa [Nat.div_add_mod] at hwrites

end Abacus.Text
