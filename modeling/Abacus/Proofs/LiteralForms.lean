import Abacus.Number.Literal
import Abacus.Proofs.DigitRuns
import Abacus.Proofs.FloatArithmetic
import Abacus.Proofs.NearestDoubles
import Abacus.Text.Reader

/-!
# The forms of a literal

What a literal denotes is laid down without the order in which the forms are tried (`Denotes`): a
mark and digits in its base denote the word with these bits, decimal digits denote an integer, and
decimal digits around a point denote the closest double.  Reading decides this relation, so that the
forms do not overlap and nothing else is a literal.

The forms are told apart by their characters.  Digits are neither the letters of a mark nor points,
so after an octal mark there is no letter that would make it another mark, and a text with a point
does not consist of digits.
-/

namespace Abacus.Literal

open Text (Writes isDigit_of_writes readNat? readNat?_eq_some_iff readNat?_zeros)
open Decimal (Binary IsNearest isNearest_ofScientific_true)

/-- The marks in front of the digits of a word, each with the base. -/
def marks : List (String × Nat) :=
  [("0x", 16), ("0X", 16), ("0b", 2), ("b", 2), ("0", 8)]

/-- What a literal without underscores denotes. -/
inductive Denotes : List Char → Number → Prop where
  /-- The word with the bits of the number that is written. -/
  | word (mark : String) {base ds n} : (mark, base) ∈ marks → Writes base ds n → n < 2 ^ 64 →
      Denotes (mark.toList ++ ds) (.int (Int64.ofNat n))
  /-- The integer itself; a zero in front of other digits would be a mark. -/
  | integer {ds n} : Writes 10 ds n → (∀ d es, ds ≠ '0' :: d :: es) → n < 2 ^ 63 →
      Denotes ds (.int (Int64.ofNat n))
  /-- The closest double, if it is finite. -/
  | real {ws fs n x} : Writes 10 (ws ++ fs) n → x.isFinite → x.isNegative = false →
      (Binary.ofDouble x).Closest (n / 10 ^ fs.length) → Denotes (ws ++ '.' :: fs) (.real x)

/-! ## The value of each form -/

theorem fit?_natCast (n : Nat) :
    Number.fit? n = if n < 2 ^ 63 then some (Int64.ofNat n) else none := by
  have hrange : Number.InRange n ↔ n < 2 ^ 63 := by
    unfold Number.InRange
    omega
  unfold Number.fit?
  by_cases h : n < 2 ^ 63
  · rw [if_pos h, if_pos (hrange.mpr h), Int64.ofInt_eq_ofNat]
  · rw [if_neg h, if_neg (mt hrange.mp h)]

theorem word?_eq_some_iff (base : Nat) (ds : List Char) (v : Number) :
    word? base ds = some v ↔ ∃ n, Writes base ds n ∧ n < 2 ^ 64 ∧ v = .int (Int64.ofNat n) := by
  simp only [word?, Option.map_eq_some_iff, Option.filter_eq_some_iff, readNat?_eq_some_iff,
    decide_eq_true_iff, and_assoc]
  exact exists_congr fun n => and_congr_right fun _ => and_congr_right fun _ => eq_comm

theorem integer?_eq_some_iff (ds : List Char) (v : Number) :
    integer? ds = some v ↔ ∃ n, Writes 10 ds n ∧ n < 2 ^ 63 ∧ v = .int (Int64.ofNat n) := by
  simp only [integer?, Option.bind_eq_some_iff, Option.map_eq_some_iff, readNat?_eq_some_iff,
    fit?_natCast]
  refine exists_congr fun n => and_congr_right fun _ => ?_
  by_cases h : n < 2 ^ 63
  · simp only [h, if_true, Option.some_inj, exists_eq_left', true_and]
    exact eq_comm
  · simp only [h, if_false, reduceCtorEq, false_and, exists_false]

/-- What is nearest to a number and finite is the closest double. -/
theorem isNearest_iff_closest {f : Float} {q : ℚ} (h : IsNearest f q) (hq : 0 ≤ q) (x : Double) :
    (f.isFinite ∧ Double.ofFloat f = x) ↔
      x.isFinite ∧ x.isNegative = false ∧ (Binary.ofDouble x).Closest q := by
  constructor
  · rintro ⟨hfinite, rfl⟩
    obtain ⟨b, hb, hcovers⟩ := h.exists_of_isFinite hfinite
    obtain ⟨-, -, hmagnitude⟩ := Double.magnitude_ofUnpacked hb.canonical hb.exponent_le .positive
    refine ⟨by rwa [Double.isFinite_ofFloat], hb.isNegative, ?_⟩
    rw [hb.ofFloat_eq, hmagnitude]
    exact hcovers.closest hb.canonical
  · rintro ⟨hfinite, hsign, hclosest⟩
    have hcanonical := (Double.canonical_ofDouble hfinite).1
    have hx := h.hasMagnitude hfinite (hclosest.covers hcanonical hq)
    refine ⟨hx.isFinite, ?_⟩
    rw [hx.ofFloat_eq_abs hfinite, Double.abs_eq, hsign, if_neg (by decide)]

theorem real?_eq_some_iff (ws fs : List Char) (v : Number) :
    real? ws fs = some v ↔ ∃ n x, Writes 10 (ws ++ fs) n ∧ x.isFinite ∧ x.isNegative = false ∧
      (Binary.ofDouble x).Closest (n / 10 ^ fs.length) ∧ v = .real x := by
  rw [real?, Option.bind_eq_some_iff]
  refine exists_congr fun n => ?_
  have hnearest := isNearest_ofScientific_true n fs.length
  have hclosest := isNearest_iff_closest hnearest (by positivity)
  rw [readNat?_eq_some_iff]
  constructor
  · rintro ⟨hwrites, hread⟩
    dsimp only at hread
    split at hread
    next hfinite =>
      obtain ⟨hx, hsign, hvalue⟩ := (hclosest _).mp ⟨hfinite, rfl⟩
      exact ⟨_, hwrites, hx, hsign, hvalue, (Option.some_inj.mp hread).symm⟩
    next => cases hread
  · rintro ⟨x, hwrites, hx, hsign, hvalue, rfl⟩
    obtain ⟨hfinite, rfl⟩ := (hclosest x).mpr ⟨hx, hsign, hvalue⟩
    exact ⟨hwrites, by rw [if_pos hfinite]⟩

/-! ## Telling the forms apart -/

section Forms

variable {cs : List Char}

/-- After an octal mark there is no letter. -/
theorem readPlain?_octal (h : ∀ c ∈ cs, c.isDigit = true) {d : Char} {ds : List Char}
    (hcs : cs = '0' :: d :: ds) : readPlain? cs = word? 8 (d :: ds) := by
  fun_cases readPlain? cs
  case case5 => cases hcs; rfl
  case case6 hne => exact absurd hcs (hne d ds)
  case case7 hnot => exact absurd (List.all_eq_true.mpr h) hnot
  all_goals simp at h

theorem readPlain?_integer (h : ∀ c ∈ cs, c.isDigit = true)
    (hzero : ∀ d es, cs ≠ '0' :: d :: es) : readPlain? cs = integer? cs := by
  fun_cases readPlain? cs
  case case5 d ds _ _ _ _ _ => exact absurd rfl (hzero d ds)
  case case6 => rfl
  case case7 hnot => exact absurd (List.all_eq_true.mpr h) hnot
  all_goals simp at h

theorem splitPoint?_eq_some_iff (ws fs : List Char) :
    splitPoint? cs = some (ws, fs) ↔ '.' ∉ ws ∧ '.' ∉ fs ∧ cs = ws ++ '.' :: fs := by
  have hparts := List.takeWhile_append_dropWhile (p := (· != '.')) (l := cs)
  constructor
  · intro h
    have hwhole : '.' ∉ cs.takeWhile (· != '.') := fun hmem => by
      simpa using List.all_eq_true.mp List.all_takeWhile _ hmem
    unfold splitPoint? at h
    cases hrest : cs.dropWhile (· != '.') with
    | nil => simp [hrest] at h
    | cons c fraction =>
      obtain rfl : c = '.' := by
        have hhead := List.head_dropWhile_not (· != '.') (by rw [hrest]; simp)
        simpa [hrest] using hhead
      rw [hrest] at h hparts
      dsimp only at h
      split at h
      next => cases h
      next hfraction =>
        obtain ⟨rfl, rfl⟩ := Prod.mk.inj (Option.some_inj.mp h)
        exact ⟨hwhole, by simpa using hfraction, hparts.symm⟩
  · rintro ⟨hws, hfs, rfl⟩
    have hall : ∀ c ∈ ws, (c != '.') = true := fun c hc => by
      rw [bne_iff_ne]
      rintro rfl
      exact hws hc
    have hpoint : ∀ c ∈ ('.' :: fs).head?, (c != '.') = false := by simp
    obtain ⟨htake, hdrop⟩ := Text.run_append hall hpoint
    unfold splitPoint?
    rw [htake, hdrop]
    simp [hfs]

/-- A text with a point has no mark and is no integer. -/
theorem readPlain?_point {ws fs : List Char} (h : ∀ c ∈ ws ++ fs, c.isDigit = true)
    (hcs : cs = ws ++ '.' :: fs) : readPlain? cs = real? ws fs := by
  have hmem : ∀ c ∈ cs, c.isDigit = true ∨ c = '.' := by
    intro c hc
    simp only [hcs, List.mem_append, List.mem_cons] at hc
    rcases hc with hc | rfl | hc
    · exact .inl (h c (List.mem_append_left _ hc))
    · exact .inr rfl
    · exact .inl (h c (List.mem_append_right _ hc))
  have hpoint : ¬ cs.all Char.isDigit = true := fun hall => by
    have := List.all_eq_true.mp hall '.' (by simp [hcs])
    exact absurd this (by decide)
  have hsplit : splitPoint? cs = some (ws, fs) := by
    refine (splitPoint?_eq_some_iff ws fs).mpr ⟨fun hp => ?_, fun hp => ?_, hcs⟩
    · exact absurd (h _ (List.mem_append_left _ hp)) (by decide)
    · exact absurd (h _ (List.mem_append_right _ hp)) (by decide)
  fun_cases readPlain? cs
  case case5 => exact absurd ‹_› hpoint
  case case6 => exact absurd ‹_› hpoint
  case case7 => rw [hsplit]; rfl
  all_goals simp at hmem

end Forms

/-! ## What is read -/

theorem denotes_of_readPlain? {cs : List Char} {v : Number} (h : readPlain? cs = some v) :
    Denotes cs v := by
  have hword (mark : String) {base : Nat} {ds : List Char} (hmark : (mark, base) ∈ marks)
      (hread : word? base ds = some v) : Denotes (mark.toList ++ ds) v := by
    obtain ⟨n, hwrites, hn, rfl⟩ := (word?_eq_some_iff base ds v).mp hread
    exact .word mark hmark hwrites hn
  revert h
  fun_cases readPlain? cs <;> intro h
  case case1 cs => exact hword "0x" (by decide) h
  case case2 cs => exact hword "0X" (by decide) h
  case case3 cs => exact hword "0b" (by decide) h
  case case4 cs => exact hword "b" (by decide) h
  case case5 => exact hword "0" (by decide) h
  case case6 hne =>
    obtain ⟨n, hwrites, hn, rfl⟩ := (integer?_eq_some_iff cs v).mp h
    exact .integer hwrites hne hn
  case case7 =>
    obtain ⟨⟨ws, fs⟩, hsplit, hread⟩ := Option.bind_eq_some_iff.mp h
    obtain ⟨-, -, rfl⟩ := (splitPoint?_eq_some_iff ws fs).mp hsplit
    obtain ⟨n, x, hwrites, hx, hsign, hclosest, rfl⟩ := (real?_eq_some_iff ws fs v).mp hread
    exact .real hwrites hx hsign hclosest

/-- Behind a mark, digits of its base are read as a word. -/
theorem readPlain?_mark {mark : String} {base : Nat} (hmark : (mark, base) ∈ marks)
    {ds : List Char} {n : Nat} (h : Writes base ds n) :
    readPlain? (mark.toList ++ ds) = word? base ds := by
  simp only [marks, List.mem_cons, Prod.mk.injEq, List.not_mem_nil, or_false] at hmark
  rcases hmark with ⟨rfl, rfl⟩ | ⟨rfl, rfl⟩ | ⟨rfl, rfl⟩ | ⟨rfl, rfl⟩ | ⟨rfl, rfl⟩
  case inr.inr.inr.inr =>
    obtain ⟨d, es, rfl⟩ := List.exists_cons_of_ne_nil h.ne_nil
    refine readPlain?_octal (fun c hc => ?_) rfl
    rcases List.mem_cons.mp hc with rfl | hc
    · rfl
    · exact isDigit_of_writes (by decide) h c hc
  all_goals rfl

theorem readPlain?_of_denotes {cs : List Char} {v : Number} (h : Denotes cs v) :
    readPlain? cs = some v := by
  cases h with
  | word mark hmark hwrites hn =>
    rw [readPlain?_mark hmark hwrites]
    exact (word?_eq_some_iff _ _ _).mpr ⟨_, hwrites, hn, rfl⟩
  | integer hwrites hzero hn =>
    rw [readPlain?_integer (isDigit_of_writes (by decide) hwrites) hzero]
    exact (integer?_eq_some_iff _ _).mpr ⟨_, hwrites, hn, rfl⟩
  | real hwrites hx hsign hclosest =>
    rw [readPlain?_point (isDigit_of_writes (by decide) hwrites) rfl]
    exact (real?_eq_some_iff _ _ _).mpr ⟨_, _, hwrites, hx, hsign, hclosest, rfl⟩

theorem readPlain?_eq_some_iff (cs : List Char) (v : Number) :
    readPlain? cs = some v ↔ Denotes cs v :=
  ⟨denotes_of_readPlain?, readPlain?_of_denotes⟩

/-- Zeros behind a mark do not count. -/
theorem readPlain?_zeros {mark : String} {base : Nat} (hmark : (mark, base) ∈ marks)
    {ds : List Char} {n : Nat} (h : Writes base ds n) (k : Nat) :
    readPlain? (mark.toList ++ (List.replicate k '0' ++ ds)) = readPlain? (mark.toList ++ ds) := by
  have hbase : 0 < base := by
    simp only [marks, List.mem_cons, Prod.mk.injEq, List.not_mem_nil, or_false] at hmark
    omega
  have hsame := readNat?_zeros hbase k h.ne_nil
  have hzeros : Writes base (List.replicate k '0' ++ ds) n := by
    rw [← readNat?_eq_some_iff, hsame, readNat?_eq_some_iff]
    exact h
  rw [readPlain?_mark hmark hzeros, readPlain?_mark hmark h, word?, word?, hsame]

/-- **A text is a literal exactly if what it is without underscores has one of the forms**, and it
is then the number that this form denotes.  Leading zeros make no difference to the word behind a
mark, not even to whether it is one. -/
theorem literal_forms :
    (∀ s v, read? s = some v ↔ Denotes (s.toList.filter (· != '_')) v) ∧
      ∀ mark base, (mark, base) ∈ marks → ∀ ds n, Writes base ds n → ∀ k s t,
        s.toList.filter (· != '_') = mark.toList ++ ds →
        t.toList.filter (· != '_') = mark.toList ++ (List.replicate k '0' ++ ds) →
        read? t = read? s := by
  refine ⟨fun s v => readPlain?_eq_some_iff _ v, ?_⟩
  intro mark base hmark ds n hwrites k s t hs ht
  rw [read?, read?, hs, ht]
  exact readPlain?_zeros hmark hwrites k

/-- All bits of a word are written out, with two zeros too many and with underscores. -/
theorem literal_forms_all_bits :
    Denotes "0xffffffffffffffff".toList (.int (-1)) ∧
      read? "0X_ffff_ffff_ffff_ffff" = some (.int (-1)) ∧
      read? "0X00_ffffffffffffffff" = read? "0X_ffff_ffff_ffff_ffff" := by
  have hwrites : Writes 16 (List.replicate 16 'f') 0xffffffffffffffff :=
    (readNat?_eq_some_iff _ _ _).mp (by decide +kernel)
  refine ⟨(literal_forms.1 "0x_ffff_ffff_ffff_ffff" (.int (-1))).mp (by decide +kernel),
    (literal_forms.1 _ _).mpr (.word "0X" (by decide) hwrites (by decide)), ?_⟩
  exact literal_forms.2 "0X" 16 (by decide) _ _ hwrites 2 _ _ (by decide +kernel)
    (by decide +kernel)

end Abacus.Literal
