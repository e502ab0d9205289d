import Abacus.Console.Grouping
import Abacus.Proofs.PrintedIntegers
import Abacus.Text.Reader

/-!
# Digits in groups

A result with many digits is easier to read with commas, and the commas must not make it another
result.  So grouping has to leave alone whatever is no long decimal, and where it does put commas
in, they have to be all that it does.

## Which texts are long decimals

`IsLong` says how such a text is made up, without any way of taking it apart: a sign, more than
three digits of which the first is not zero, and a point with digits behind it.  The sign and the
point may be missing, and as in a literal, there may be no digit behind the point.  A text is long
in at most one way, and that is the one in which it is taken apart (`IsLong.groupChars_eq`).  What
is not long in any way is left alone (`groupChars_of_not_isLong`).

## Where the commas go

`Grouped` says what groups of three are, again without a recipe.  The recipe goes through the digits
from the left and counts how many are still to come, so the groups come out as if they had been
counted from the right (`grouped_separate`).

A long decimal has no comma, and once it has been grouped it has one.  That settles the rest: the
commas can be deleted again, and a grouped text is no long decimal, so that nothing is grouped
twice.
-/

namespace Abacus.Console.Grouping

/-- The text is a decimal with more than three digits in front of the point, and it is made up of
these parts. -/
structure IsLong (text sign whole rest : List Char) : Prop where
  parts : text = sign ++ (whole ++ rest)
  sign : sign = [] ∨ sign = ['-']
  long : 3 < whole.length
  digits : ∀ c ∈ whole, c.isDigit = true
  nonzero : whole.head? ≠ some '0'
  /-- Nothing, or a point and digits. -/
  rest : rest = [] ∨ ∃ fraction, rest = '.' :: fraction ∧ ∀ c ∈ fraction, c.isDigit = true

/-- The second text has a comma between any two groups of the first one: three digits each, counted
from the right, and at least one in the first group. -/
def Grouped (digits grouped : List Char) : Prop :=
  ∃ first groups, digits = first ++ groups.flatten ∧ grouped = [','].intercalate (first :: groups) ∧
    first ≠ [] ∧ first.length ≤ 3 ∧ ∀ g ∈ groups, g.length = 3

/-! ## Groups of three -/

theorem length_flatten_mod {groups : List (List Char)} (h : ∀ g ∈ groups, g.length = 3) :
    groups.flatten.length % 3 = 0 := by
  induction groups with
  | nil => rfl
  | cons g groups ih =>
    obtain ⟨hg, hgroups⟩ := List.forall_mem_cons.mp h
    have hrest := ih hgroups
    rw [List.flatten_cons, List.length_append]
    omega

theorem intercalate_head (d : Char) (first : List Char) (groups : List (List Char)) :
    [','].intercalate ((d :: first) :: groups) = d :: [','].intercalate (first :: groups) := by
  cases groups with
  | nil => rw [List.intercalate_singleton, List.intercalate_singleton]
  | cons g groups => rw [List.intercalate_cons_cons, List.intercalate_cons_cons]; rfl

/-- One more digit in front makes the first group longer, unless that is full. -/
theorem Grouped.cons {ds out : List Char} (h : Grouped ds out) (d : Char) :
    Grouped (d :: ds) (if ds.length % 3 = 0 then d :: ',' :: out else d :: out) := by
  obtain ⟨first, groups, rfl, rfl, hne, hshort, hthree⟩ := h
  have hflatten := length_flatten_mod hthree
  have hpos := List.length_pos_of_ne_nil hne
  rw [List.length_append]
  split
  next hmod =>
    refine ⟨[d], first :: groups, rfl, ?_, List.cons_ne_nil _ _, by simp, ?_⟩
    · rw [List.intercalate_cons_cons]
      rfl
    · exact List.forall_mem_cons.mpr ⟨by omega, hthree⟩
  next hmod =>
    refine ⟨d :: first, groups, rfl, (intercalate_head d first groups).symm, List.cons_ne_nil _ _,
      ?_, hthree⟩
    rw [List.length_cons]
    omega

/-- **Counting what is still to come makes groups of three from the right.** -/
theorem grouped_separate {ds : List Char} (h : ds ≠ []) : Grouped ds (separate ds) := by
  fun_induction separate ds with
  | case1 => exact absurd rfl h
  | case2 d => exact ⟨[d], [], rfl, rfl, List.cons_ne_nil _ _, by simp, List.forall_mem_nil _⟩
  | case3 d ds hne hmod ih =>
    have hcons := (ih hne).cons d
    rwa [if_pos hmod] at hcons
  | case4 d ds hne hmod ih =>
    have hcons := (ih hne).cons d
    rwa [if_neg hmod] at hcons

theorem filter_intercalate (first : List Char) (groups : List (List Char)) :
    ([','].intercalate (first :: groups)).filter (· ≠ ',') =
      (first ++ groups.flatten).filter (· ≠ ',') := by
  induction groups generalizing first with
  | nil => rw [List.intercalate_singleton, List.flatten_nil, List.append_nil]
  | cons g groups ih =>
    rw [List.intercalate_cons_cons, List.filter_append, ih, List.filter_append, List.filter_append,
      List.flatten_cons]
    simp

theorem filter_of_comma_not_mem {cs : List Char} (h : ',' ∉ cs) : cs.filter (· ≠ ',') = cs :=
  List.filter_eq_self.mpr fun _ hc => decide_eq_true fun heq => h (heq ▸ hc)

/-- Nothing but commas is put between the digits. -/
theorem Grouped.filter_eq {ds out : List Char} (h : Grouped ds out) (hds : ',' ∉ ds) :
    out.filter (· ≠ ',') = ds := by
  obtain ⟨first, groups, rfl, rfl, -⟩ := h
  rw [filter_intercalate, filter_of_comma_not_mem hds]

/-- More than three digits make more than one group. -/
theorem Grouped.comma_mem {ds out : List Char} (h : Grouped ds out) (hds : 3 < ds.length) :
    ',' ∈ out := by
  obtain ⟨first, groups, rfl, rfl, -, hshort, -⟩ := h
  cases groups with
  | nil =>
    rw [List.flatten_nil, List.append_nil] at hds
    omega
  | cons g groups =>
    rw [List.intercalate_cons_cons]
    simp

/-! ## Taking a text apart -/

theorem splitSign_append (cs : List Char) : (splitSign cs).1 ++ (splitSign cs).2 = cs := by
  unfold splitSign
  split <;> rfl

theorem splitSign_of_ne {c : Char} (hc : c ≠ '-') (cs : List Char) :
    splitSign (c :: cs) = ([], c :: cs) := by
  unfold splitSign
  split
  next h => exact absurd (List.cons.inj h).1 hc
  next => rfl

theorem ne_of_isDigit {c d : Char} (hc : c.isDigit = true) (hd : d.isDigit = false) : c ≠ d := by
  rintro rfl
  exact absurd (hc.symm.trans hd) (by decide)

namespace IsLong

variable {text sign whole rest : List Char}

theorem exists_cons (h : IsLong text sign whole rest) :
    ∃ d ds, whole = d :: ds ∧ d.isDigit = true ∧ d ≠ '0' := by
  obtain ⟨d, ds, rfl⟩ := List.exists_cons_of_length_pos (Nat.zero_lt_of_lt h.long)
  refine ⟨d, ds, rfl, h.digits d List.mem_cons_self, ?_⟩
  rintro rfl
  exact h.nonzero rfl

theorem splitSign_eq (h : IsLong text sign whole rest) :
    splitSign text = (sign, whole ++ rest) := by
  obtain ⟨d, ds, rfl, hd, -⟩ := h.exists_cons
  rcases h with ⟨rfl, rfl | rfl, -, -, -, -⟩
  · exact splitSign_of_ne (ne_of_isDigit hd (by decide)) _
  · rfl

/-- The digits in front of the point reach up to it. -/
theorem point_eq (h : IsLong text sign whole rest) :
    (whole ++ rest).takeWhile (· != '.') = whole ∧ (whole ++ rest).dropWhile (· != '.') = rest := by
  have hwhole : ∀ c ∈ whole, (c != '.') = true := fun c hc =>
    bne_iff_ne.mpr (ne_of_isDigit (h.digits c hc) (by decide))
  refine Text.run_append hwhole ?_
  rcases h.rest with rfl | ⟨fraction, rfl, -⟩ <;> simp

theorem isGroupable (h : IsLong text sign whole rest) : isGroupable whole rest = true := by
  have hrest : (rest.drop 1).all Char.isDigit = true := by
    rcases h.rest with rfl | ⟨fraction, rfl, hfraction⟩
    · rfl
    · exact List.all_eq_true.mpr hfraction
  rw [Grouping.isGroupable, hrest, List.all_eq_true.mpr h.digits, decide_eq_true h.long,
    bne_iff_ne.mpr h.nonzero]
  rfl

/-- A long decimal gets commas between the digits in front of the point, and keeps the rest. -/
theorem groupChars_eq (h : IsLong text sign whole rest) :
    groupChars text = sign ++ (separate whole ++ rest) := by
  simp only [groupChars, h.splitSign_eq, h.point_eq.1, h.point_eq.2]
  rw [if_pos h.isGroupable, List.append_assoc]

/-- A long decimal has no comma. -/
theorem comma_not_mem (h : IsLong text sign whole rest) : ',' ∉ text := by
  have hdigits {ds : List Char} (hds : ∀ c ∈ ds, c.isDigit = true) : ',' ∉ ds := fun hc =>
    ne_of_isDigit (hds ',' hc) (by decide) rfl
  rw [h.parts, List.mem_append, List.mem_append, not_or, not_or]
  refine ⟨?_, hdigits h.digits, ?_⟩
  · rcases h.sign with rfl | rfl <;> simp
  · rcases h.rest with rfl | ⟨fraction, rfl, hfraction⟩
    · simp
    · exact List.not_mem_cons_of_ne_of_not_mem (by decide) (hdigits hfraction)

/-- A grouped one has. -/
theorem comma_mem_groupChars (h : IsLong text sign whole rest) : ',' ∈ groupChars text := by
  have hgrouped := grouped_separate (List.ne_nil_of_length_pos (Nat.zero_lt_of_lt h.long))
  rw [h.groupChars_eq]
  exact List.mem_append_right _ (List.mem_append_left _ (hgrouped.comma_mem h.long))

/-- Without its commas, a grouped decimal is what it was before. -/
theorem filter_groupChars (h : IsLong text sign whole rest) :
    (groupChars text).filter (· ≠ ',') = text := by
  have hgrouped := grouped_separate (List.ne_nil_of_length_pos (Nat.zero_lt_of_lt h.long))
  have hcomma := h.comma_not_mem
  rw [h.parts, List.mem_append, List.mem_append, not_or, not_or] at hcomma
  rw [h.groupChars_eq, List.filter_append, List.filter_append, hgrouped.filter_eq hcomma.2.1,
    filter_of_comma_not_mem hcomma.1, filter_of_comma_not_mem hcomma.2.2, h.parts]

end IsLong

/-- What is taken for a long decimal is one. -/
theorem isLong_of_isGroupable {text : List Char} (h : isGroupable
    ((splitSign text).2.takeWhile (· != '.')) ((splitSign text).2.dropWhile (· != '.')) = true) :
    IsLong text (splitSign text).1 ((splitSign text).2.takeWhile (· != '.'))
      ((splitSign text).2.dropWhile (· != '.')) := by
  rw [isGroupable, Bool.and_eq_true, Bool.and_eq_true, Bool.and_eq_true, decide_eq_true_eq,
    List.all_eq_true, List.all_eq_true, bne_iff_ne] at h
  obtain ⟨⟨⟨hlong, hdigits⟩, hnonzero⟩, hfraction⟩ := h
  refine ⟨?_, ?_, hlong, hdigits, hnonzero, ?_⟩
  · rw [List.takeWhile_append_dropWhile, splitSign_append]
  · unfold splitSign
    split
    · exact .inr rfl
    · exact .inl rfl
  · -- What is left where the digits end starts with a point.
    cases hrest : (splitSign text).2.dropWhile (· != '.') with
    | nil => exact .inl rfl
    | cons c fraction =>
      rw [hrest] at hfraction
      have hpoint := List.head?_dropWhile_not (· != '.') (splitSign text).2
      rw [hrest] at hpoint
      obtain rfl : c = '.' := by simpa using hpoint
      exact .inr ⟨fraction, rfl, hfraction⟩

/-- What is no long decimal is left alone. -/
theorem groupChars_of_not_isLong {text : List Char}
    (h : ∀ sign whole rest, ¬ IsLong text sign whole rest) : groupChars text = text := by
  simp only [groupChars]
  rw [if_neg fun hgroupable => h _ _ _ (isLong_of_isGroupable hgroupable)]

/-- **A text is changed exactly if it is a long decimal.** -/
theorem groupChars_ne_iff (text : List Char) :
    groupChars text ≠ text ↔ ∃ sign whole rest, IsLong text sign whole rest := by
  constructor
  · intro hne
    by_contra hnot
    simp only [not_exists] at hnot
    exact hne (groupChars_of_not_isLong hnot)
  · rintro ⟨sign, whole, rest, h⟩ heq
    exact h.comma_not_mem (heq ▸ h.comma_mem_groupChars)

/-- Nothing is grouped twice. -/
theorem groupChars_groupChars (text : List Char) :
    groupChars (groupChars text) = groupChars text := by
  by_cases hne : groupChars text = text
  · rw [hne, hne]
  · obtain ⟨sign, whole, rest, h⟩ := (groupChars_ne_iff text).mp hne
    refine groupChars_of_not_isLong fun sign' whole' rest' h' => ?_
    exact h'.comma_not_mem h.comma_mem_groupChars

/-! ## Integers as results -/

theorem splitSign_render (r : Radix) (n : Int64) :
    (splitSign (r.render (.int n)).toList).2 = r.magnitude n.toInt.natAbs := by
  rcases lt_or_ge n.toInt 0 with hneg | hpos
  · rw [render_of_neg r hneg, String.toList_ofList]
    rfl
  · obtain ⟨c, cs, hcs, -⟩ := r.magnitude_eq_cons n.toInt.natAbs
    have halnum := r.isAlphanum_of_mem_magnitude n.toInt.natAbs c (hcs ▸ List.mem_cons_self)
    have hminus : c ≠ '-' := by
      rintro rfl
      exact absurd halnum (by decide)
    rw [render_of_nonneg r hpos, String.toList_ofList, hcs, splitSign_of_ne hminus]

/-- The digits of a long result are those of its magnitude. -/
theorem IsLong.magnitude_eq {r : Radix} {n : Int64} {sign whole rest : List Char}
    (h : IsLong (r.render (.int n)).toList sign whole rest) :
    r.magnitude n.toInt.natAbs = whole ++ rest := by
  rw [← splitSign_render, h.splitSign_eq]

/-- In every format but decimal, a magnitude starts with a zero or with a letter. -/
theorem not_isLong_render {r : Radix} (hr : r ≠ .dec) (n : Int64) (sign whole rest : List Char) :
    ¬ IsLong (r.render (.int n)).toList sign whole rest := by
  intro h
  have hmagnitude := h.magnitude_eq
  obtain ⟨d, ds, rfl, hdigit, hnonzero⟩ := h.exists_cons
  cases r with
  | dec => exact hr rfl
  | hex => exact hnonzero (List.cons.inj hmagnitude).1.symm
  | oct =>
    rw [Radix.magnitude] at hmagnitude
    split at hmagnitude
    · exact hnonzero (List.cons.inj hmagnitude).1.symm
    · exact hnonzero (List.cons.inj hmagnitude).1.symm
  | bin => exact ne_of_isDigit hdigit (by decide) (List.cons.inj hmagnitude).1.symm

/-- A decimal result is long exactly from a thousand on. -/
theorem exists_isLong_render_iff (n : Int64) :
    (∃ sign whole rest, IsLong (Radix.dec.render (.int n)).toList sign whole rest) ↔
      1000 ≤ n.toInt.natAbs := by
  have hlength : 3 < (Nat.toDigits 10 n.toInt.natAbs).length ↔ 1000 ≤ n.toInt.natAbs := by
    rw [← Nat.not_le, Nat.length_toDigits_le_iff (by decide) (by decide), Nat.not_lt]
  constructor
  · rintro ⟨sign, whole, rest, h⟩
    have hwhole := h.long
    have hmagnitude : Nat.toDigits 10 n.toInt.natAbs = whole ++ rest := h.magnitude_eq
    rw [← hlength, hmagnitude, List.length_append]
    omega
  · intro hn
    refine ⟨if n.toInt < 0 then ['-'] else [], Nat.toDigits 10 n.toInt.natAbs, [], ?_, ?_,
      hlength.mpr hn, ?_, ?_, .inl rfl⟩
    · rw [Radix.render, Radix.renderInt, String.toList_ofList, List.append_nil]
      rfl
    · split
      · exact .inr rfl
      · exact .inl rfl
    · exact fun c hc => Nat.isDigit_of_mem_toDigits (by decide) le_rfl hc
    · intro hzero
      obtain ⟨ds, hds⟩ := List.head?_eq_some_iff.mp hzero
      exact Json.toDigits_ne_zero_cons (by omega) ds hds

/-! ## Texts -/

theorem toList_group (s : String) : (group s).toList = groupChars s.toList := String.toList_ofList

theorem group_ne_iff (s : String) :
    group s ≠ s ↔ ∃ sign whole rest, IsLong s.toList sign whole rest := by
  rw [← groupChars_ne_iff, ← toList_group, ne_eq, ne_eq, String.toList_inj]

/-- **Grouping is reversible and touches long decimals only.**

* A text is changed exactly if it is a long decimal.  Then sign and fraction are kept, and the
  digits between them come in groups of three.
* Deleting the commas of what comes out gives back any text that has none of its own, and a second
  grouping changes nothing.
* A result that is an integer is never changed in hexadecimal, octal and binary.  In decimal it is
  changed exactly if its magnitude is a thousand or more. -/
theorem grouping_reversible :
    (∀ s, group s ≠ s ↔ ∃ sign whole rest, IsLong s.toList sign whole rest) ∧
      (∀ s sign whole rest, IsLong s.toList sign whole rest → ∃ grouped, Grouped whole grouped ∧
        group s = String.ofList (sign ++ (grouped ++ rest))) ∧
      (∀ s, ',' ∉ s.toList → String.ofList ((group s).toList.filter (· ≠ ',')) = s) ∧
      (∀ s, group (group s) = group s) ∧
      (∀ r : Radix, r ≠ .dec → ∀ n : Int64, group (r.render (.int n)) = r.render (.int n)) ∧
      ∀ n : Int64, group (Radix.dec.render (.int n)) ≠ Radix.dec.render (.int n) ↔
        1000 ≤ n.toInt.natAbs := by
  refine ⟨group_ne_iff, fun s sign whole rest h => ?_, fun s hs => ?_, fun s => ?_,
    fun r hr n => ?_, fun n => ?_⟩
  · have hne := List.ne_nil_of_length_pos (Nat.zero_lt_of_lt h.long)
    exact ⟨separate whole, grouped_separate hne, congrArg String.ofList h.groupChars_eq⟩
  · rw [← String.toList_inj, String.toList_ofList, toList_group]
    by_cases hsame : groupChars s.toList = s.toList
    · rw [hsame, filter_of_comma_not_mem hs]
    · obtain ⟨sign, whole, rest, h⟩ := (groupChars_ne_iff _).mp hsame
      exact h.filter_groupChars
  · rw [← String.toList_inj, toList_group, toList_group, groupChars_groupChars]
  · by_contra hne
    obtain ⟨sign, whole, rest, h⟩ := (group_ne_iff _).mp hne
    exact not_isLong_render hr n sign whole rest h
  · rw [group_ne_iff, exists_isLong_render_iff]

/-- Seven digits with a sign and a fraction, the least integer in octal, and a thousand. -/
theorem grouping_reversible_million :
    (∃ grouped, Grouped "1234567".toList grouped ∧
      group "-1234567.5" = String.ofList (['-'] ++ (grouped ++ ".5".toList))) ∧
      String.ofList ((group "-1234567.5").toList.filter (· ≠ ',')) = "-1234567.5" ∧
      group (Radix.oct.render (.int Int64.minValue)) = Radix.oct.render (.int Int64.minValue) ∧
      group "1000" ≠ "1000" := by
  obtain ⟨-, hgroups, hdeleted, -, hmarked, hdecimal⟩ := grouping_reversible
  have hlong : IsLong "-1234567.5".toList ['-'] "1234567".toList ".5".toList :=
    ⟨by decide, .inr rfl, by decide, List.all_eq_true.mp (by decide), by decide,
      .inr ⟨['5'], rfl, List.all_eq_true.mp (by decide)⟩⟩
  have hthousand : Radix.dec.render (.int 1000) = "1000" := by decide +kernel
  refine ⟨hgroups _ _ _ _ hlong, hdeleted _ (by decide), hmarked .oct (by decide) _, ?_⟩
  rw [← hthousand]
  exact (hdecimal 1000).mpr (by decide)

end Abacus.Console.Grouping
