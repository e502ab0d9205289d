import Abacus.Proofs.ScalarText

/-!
# Reading dates back

A date, a time of day or both together are written with a fixed number of digits for each part,
so reading one back is a matter of following the separators.  What is read is always a date of
the calendar and a time within the day (`Datetime.InCalendar`), and each of these is read as
itself (`scalar_datetime`).

The part of a second is the exception: its zeros at the end are not written.  They are the
zeros that the reader puts back (`secondFraction_fractionChars`).

Two readers go on as far as they can.  Behind a time they look for a distance to universal
time, and behind a date for a letter or a blank that introduces a time.  In a printed file such
a blank only stands before a closing brace (`Follows`), and no time begins with that.
-/

namespace Abacus.Toml

open Abacus.Text.Reader (exactly some1 word some1_append forall_mem_of_some1)
open Json (digitsValue)
open Lexical

/-- A day of the calendar. -/
structure Date.InCalendar (d : Date) : Prop where
  year_le : d.year ≤ 9999
  one_le_month : 1 ≤ d.month
  month_le : d.month ≤ 12
  one_le_day : 1 ≤ d.day
  day_le : d.day ≤ daysIn d.year d.month

/-- A time within a day.  Any minute may have a leap second. -/
structure Time.InDay (t : Time) : Prop where
  hour_le : t.hour ≤ 23
  minute_le : t.minute ≤ 59
  second_le : t.second ≤ 60
  nanosecond_lt : t.nanosecond < 10 ^ 9

/-- A distance of less than a day. -/
def Offset.InDay : Offset → Prop
  | .zero => True
  | .minutes n => n.natAbs < 24 * 60

/-- The combinations that can be written. -/
inductive Datetime.InCalendar : Datetime → Prop
  | day {date : Date} : date.InCalendar → Datetime.InCalendar { date := some date }
  | moment {date : Date} {time : Time} {offset : Option Offset} :
      date.InCalendar → time.InDay → (∀ o ∈ offset, o.InDay) →
        Datetime.InCalendar { date := some date, time := some time, offset }
  | time {time : Time} : time.InDay → Datetime.InCalendar { time := some time }

/-! ## Numbers of a fixed width -/

theorem length_padded {width n : Nat} (hwidth : 0 < width) (hn : n < 10 ^ width) :
    (padded width n).length = width := by
  have hlength := (Nat.length_toDigits_le_iff (by decide) hwidth).mpr hn
  simp only [padded, List.length_append, List.length_replicate]
  omega

theorem isDigit_of_mem_padded {width n : Nat} {c : Char} (h : c ∈ padded width n) :
    c.isDigit := by
  rcases List.mem_append.mp h with h | h
  · rw [List.eq_of_mem_replicate h]
    decide
  · exact Nat.isDigit_of_mem_toDigits (by decide) le_rfl h

theorem digitsValue_padded (width n : Nat) : digitsValue (padded width n) = n := by
  rw [padded, Json.digitsValue_append, Json.digitsValue_zeros, Json.digitsValue_toDigits,
    Nat.zero_mul, Nat.zero_add]

theorem padded_ne_nil (width n : Nat) : padded width n ≠ [] :=
  List.append_ne_nil_of_right_ne_nil _ Nat.toDigits_ne_nil

theorem exactly_length {p : Char → Bool} {ds : List Char} (hds : ∀ c ∈ ds, p c = true)
    (rest : List Char) : exactly p ds.length (ds ++ rest) = some (ds, rest) := by
  induction ds with
  | nil => rfl
  | cons d ds ih =>
    rw [List.forall_mem_cons] at hds
    rw [List.cons_append, List.length_cons, exactly, if_pos hds.1, ih hds.2]
    rfl

/-- A padded number is read off the front of any text. -/
theorem number_padded {width low high n : Nat} (hwidth : 0 < width) (hn : n < 10 ^ width)
    (hlow : low ≤ n) (hhigh : n ≤ high) (rest : List Char) :
    number width low high (padded width n ++ rest) = some (n, rest) := by
  have hdigits : ∀ c ∈ padded width n, c.isDigit := fun _ => isDigit_of_mem_padded
  have hread := exactly_length hdigits rest
  rw [length_padded hwidth hn] at hread
  simp [number, hread, readNat?_digits (padded_ne_nil width n) hdigits, digitsValue_padded, hlow,
    hhigh]

/-- What is read is in the range. -/
theorem bounds_of_number {width low high n : Nat} {cs rest : List Char}
    (h : number width low high cs = some (n, rest)) : low ≤ n ∧ n ≤ high := by
  simp only [number, Option.bind_eq_bind, Option.bind_eq_some_iff] at h
  obtain ⟨_, _, m, _, h⟩ := h
  split at h
  next hrange =>
    obtain ⟨rfl, -⟩ := Prod.mk.inj (Option.some.inj h)
    exact hrange
  next => cases h

/-! ## Dates -/

theorem daysIn_le (year month : Nat) : daysIn year month ≤ 31 := by
  unfold daysIn
  split
  · split <;> decide
  · split <;> decide

theorem date_chars {d : Date} (hd : d.InCalendar) (rest : List Char) :
    date (d.chars ++ rest) = some (d, rest) := by
  have hdays := daysIn_le d.year d.month
  have hyear := hd.year_le
  have hmonth := hd.month_le
  have hday := hd.day_le
  simp [date, Date.chars, number_padded (by decide : 0 < 4) (n := d.year) (by omega) (Nat.zero_le _)
    hyear, number_padded (by decide : 0 < 2) (n := d.month) (by omega) hd.one_le_month hmonth,
    number_padded (by decide : 0 < 2) (n := d.day) (by omega) hd.one_le_day hday, word]

theorem inCalendar_of_date {d : Date} {cs rest : List Char} (h : date cs = some (d, rest)) :
    d.InCalendar := by
  simp only [date, Option.bind_eq_bind, Option.bind_eq_some_iff, Option.pure_def] at h
  obtain ⟨⟨year, _⟩, hyear, _, _, ⟨month, _⟩, hmonth, _, _, ⟨day, _⟩, hday, h⟩ := h
  obtain ⟨rfl, -⟩ := Prod.mk.inj (Option.some.inj h)
  exact ⟨(bounds_of_number hyear).2, (bounds_of_number hmonth).1, (bounds_of_number hmonth).2,
    (bounds_of_number hday).1, (bounds_of_number hday).2⟩

/-! ## Times -/

/-- A text that goes on with something that ends a part of a second. -/
def EndsSecond (cs : List Char) : Prop :=
  ∃ c rest, cs = c :: rest ∧ c.isDigit = false ∧ c ≠ '.'

theorem secondFraction_fractionChars {n : Nat} (hn : n < 10 ^ 9) {rest : List Char}
    (hrest : EndsSecond rest) : secondFraction (fractionChars n ++ rest) = some (n, rest) := by
  obtain ⟨c, rest, rfl, hc, hpoint⟩ := hrest
  by_cases hzero : n = 0
  · rw [fractionChars, if_pos hzero, List.nil_append, secondFraction.eq_def]
    split
    next heq => exact absurd (List.cons.inj heq).1 hpoint
    next => rw [hzero]
  · -- The digits that are written, and the zeros that are not.
    obtain ⟨t, ht⟩ := Json.exists_eq_append_zeros (padded 9 n)
    rw [fractionChars, if_neg hzero]
    generalize ((padded 9 n).reverse.dropWhile (· == '0')).reverse = ds at ht ⊢
    have hdigits : ∀ d ∈ ds, d.isDigit := fun d hd =>
      isDigit_of_mem_padded (ht ▸ List.mem_append_left _ hd)
    have hlength : ds.length + t = 9 := by
      have := congrArg List.length ht
      rw [length_padded (by decide) hn, List.length_append, List.length_replicate] at this
      exact this.symm
    have hvalue : n = digitsValue ds * 10 ^ t := by
      have := congrArg digitsValue ht
      rw [digitsValue_padded, Json.digitsValue_append, Json.digitsValue_zeros,
        List.length_replicate, Nat.add_zero] at this
      exact this
    have hne : ds ≠ [] := by
      rintro rfl
      have hnone : digitsValue [] = 0 := rfl
      rw [hnone, Nat.zero_mul] at hvalue
      exact hzero hvalue
    have hrun : some1 Char.isDigit (ds ++ c :: rest) = some (ds, c :: rest) :=
      some1_append hne hdigits (by simpa using hc)
    have htake : ds.take 9 = ds := List.take_of_length_le (by omega)
    have hzeros : 9 - min 9 ds.length = t := by omega
    simp [secondFraction, hrun, htake, readNat?_digits hne hdigits, hzeros, hvalue]

theorem nanosecond_lt {n : Nat} {cs rest : List Char} (h : secondFraction cs = some (n, rest)) :
    n < 10 ^ 9 := by
  unfold secondFraction at h
  split at h
  next cs =>
    simp only [Option.bind_eq_bind, Option.bind_eq_some_iff, Option.pure_def] at h
    obtain ⟨⟨ds, rest'⟩, hds, m, hm, h⟩ := h
    obtain ⟨rfl, -⟩ := Prod.mk.inj (Option.some.inj h)
    have hdigits : ∀ c ∈ ds, c.isDigit := forall_mem_of_some1 hds
    have htaken : ∀ c ∈ ds.take 9, c.isDigit := fun c hc => hdigits c (List.mem_of_mem_take hc)
    have hne : ds.take 9 ≠ [] := by
      intro hnil
      simp [hnil, Text.readNat?] at hm
    rw [readNat?_digits hne htaken, Option.some.injEq] at hm
    have hlength : (ds.take 9).length ≤ 9 := List.length_take_le _ _
    calc m * Nat.pow 10 (9 - (ds.take 9).length)
        < 10 ^ (ds.take 9).length * 10 ^ (9 - (ds.take 9).length) :=
          Nat.mul_lt_mul_of_pos_right (hm ▸ Json.digitsValue_lt htaken) (Nat.pow_pos (by decide))
      _ = 10 ^ 9 := by rw [← Nat.pow_add, Nat.add_sub_cancel' hlength]
  next =>
    obtain ⟨rfl, -⟩ := Prod.mk.inj (Option.some.inj h)
    decide

theorem time_chars {t : Time} (ht : t.InDay) {rest : List Char} (hrest : EndsSecond rest) :
    time (t.chars ++ rest) = some (t, rest) := by
  have hhour := ht.hour_le
  have hminute := ht.minute_le
  have hsecond := ht.second_le
  simp [time, Time.chars,
    number_padded (by decide : 0 < 2) (n := t.hour) (by omega) (Nat.zero_le _) hhour,
    number_padded (by decide : 0 < 2) (n := t.minute) (by omega) (Nat.zero_le _) hminute,
    number_padded (by decide : 0 < 2) (n := t.second) (by omega) (Nat.zero_le _) hsecond,
    secondFraction_fractionChars ht.nanosecond_lt hrest, word]

theorem inDay_of_time {t : Time} {cs rest : List Char} (h : time cs = some (t, rest)) :
    t.InDay := by
  simp only [time, Option.bind_eq_bind, Option.bind_eq_some_iff, Option.pure_def] at h
  obtain ⟨⟨hour, _⟩, hhour, _, _, ⟨minute, _⟩, hminute, _, _, ⟨second, _⟩, hsecond,
    ⟨nanosecond, _⟩, hfraction, h⟩ := h
  obtain ⟨rfl, -⟩ := Prod.mk.inj (Option.some.inj h)
  exact ⟨(bounds_of_number hhour).2, (bounds_of_number hminute).2, (bounds_of_number hsecond).2,
    nanosecond_lt hfraction⟩

/-! ## Distances -/

theorem offset_chars {o : Offset} (ho : o.InDay) (rest : List Char) :
    offset (o.chars ++ rest) = some (o, rest) := by
  cases o with
  | zero => rfl
  | minutes n =>
    have hlt : n.natAbs < 24 * 60 := ho
    have hhour : ∀ cs, number 2 0 23 (padded 2 (n.natAbs / 60) ++ cs) =
        some (n.natAbs / 60, cs) :=
      number_padded (by decide) (by omega) (Nat.zero_le _) (by omega)
    have hminute : ∀ cs, number 2 0 59 (padded 2 (n.natAbs % 60) ++ cs) =
        some (n.natAbs % 60, cs) :=
      number_padded (by decide) (by omega) (Nat.zero_le _) (by omega)
    simp only [offset, Offset.chars, List.cons_append, List.append_assoc]
    by_cases hn : n < 0
    · have habs := abs_of_neg hn
      simp [hn, hhour, hminute, word]
      omega
    · have habs := abs_of_nonneg (not_lt.mp hn)
      simp [hn, hhour, hminute, word]
      omega

theorem inDay_of_offset {o : Offset} {cs rest : List Char} (h : offset cs = some (o, rest)) :
    o.InDay := by
  unfold offset at h
  split at h
  next c cs =>
    split at h
    next =>
      obtain ⟨rfl, -⟩ := Prod.mk.inj (Option.some.inj h)
      trivial
    next =>
      split at h
      next =>
        simp only [Option.bind_eq_bind, Option.bind_eq_some_iff, Option.pure_def] at h
        obtain ⟨⟨hour, _⟩, hhour, _, _, ⟨minute, _⟩, hminute, h⟩ := h
        obtain ⟨rfl, -⟩ := Prod.mk.inj (Option.some.inj h)
        have hhour := (bounds_of_number hhour).2
        have hminute := (bounds_of_number hminute).2
        show Int.natAbs _ < 24 * 60
        split <;> omega
      next => cases h
  next => cases h

/-- What follows a value is no distance. -/
theorem offset_of_follows {cs : List Char} (h : Follows cs) : offset cs = none := by
  obtain ⟨rest, rfl | rfl | rfl | rfl⟩ := h <;> rfl

theorem endsSecond_of_follows {cs : List Char} (h : Follows cs) : EndsSecond cs := by
  obtain ⟨rest, rfl | rfl | rfl | rfl⟩ := h <;> exact ⟨_, _, rfl, rfl, by decide⟩

theorem endsSecond_offset (o : Offset) (rest : List Char) : EndsSecond (o.chars ++ rest) := by
  cases o with
  | zero => exact ⟨_, _, rfl, rfl, by decide⟩
  | minutes n =>
    by_cases hn : n < 0
    · exact ⟨'-', _, by rw [Offset.chars, if_pos hn]; rfl, rfl, by decide⟩
    · exact ⟨'+', _, by rw [Offset.chars, if_neg hn]; rfl, rfl, by decide⟩

/-! ## Dates with times -/

/-- The characters of a distance, if there is one. -/
def offsetChars : Option Offset → List Char
  | some o => o.chars
  | none => []

theorem timeWithOffset_chars {t : Time} (ht : t.InDay) {offset : Option Offset}
    (hoffset : ∀ o ∈ offset, o.InDay) {rest : List Char} (hrest : Follows rest) :
    timeWithOffset (t.chars ++ (offsetChars offset ++ rest)) = some ((t, offset), rest) := by
  cases offset with
  | none =>
    simp [timeWithOffset, offsetChars, time_chars ht (endsSecond_of_follows hrest),
      offset_of_follows hrest]
  | some o =>
    simp [timeWithOffset, offsetChars, time_chars ht (endsSecond_offset o rest),
      offset_chars (hoffset o rfl)]

theorem inDay_of_timeWithOffset {t : Time} {o : Option Offset} {cs rest : List Char}
    (h : timeWithOffset cs = some ((t, o), rest)) : t.InDay ∧ ∀ x ∈ o, x.InDay := by
  simp only [timeWithOffset, Option.bind_eq_bind, Option.bind_eq_some_iff, Option.pure_def] at h
  obtain ⟨⟨time, cs⟩, htime, h⟩ := h
  simp only at h
  split at h
  next hoffset =>
    obtain ⟨hpair, -⟩ := Prod.mk.inj (Option.some.inj h)
    obtain ⟨rfl, rfl⟩ := Prod.mk.inj hpair
    exact ⟨inDay_of_time htime, fun x hx => Option.some.inj hx ▸ inDay_of_offset hoffset⟩
  next =>
    obtain ⟨hpair, -⟩ := Prod.mk.inj (Option.some.inj h)
    obtain ⟨rfl, rfl⟩ := Prod.mk.inj hpair
    exact ⟨inDay_of_time htime, fun x hx => by cases hx⟩

/-- No time begins with what follows a value behind the blank. -/
theorem dateWithTime_day {d : Date} (hd : d.InCalendar) {rest : List Char} (hrest : Follows rest) :
    dateWithTime (d.chars ++ rest) = some ({ date := some d }, rest) := by
  unfold dateWithTime
  simp only [date_chars hd, Option.bind_eq_bind, Option.bind_some]
  obtain ⟨rest, rfl | rfl | rfl | rfl⟩ := hrest <;> rfl

theorem dateWithTime_moment {d : Date} (hd : d.InCalendar) {t : Time} (ht : t.InDay)
    {offset : Option Offset} (hoffset : ∀ o ∈ offset, o.InDay) {rest : List Char}
    (hrest : Follows rest) :
    dateWithTime (d.chars ++ 'T' :: (t.chars ++ (offsetChars offset ++ rest))) =
      some ({ date := some d, time := some t, offset }, rest) := by
  unfold dateWithTime
  simp only [date_chars hd, Option.bind_eq_bind, Option.bind_some,
    timeWithOffset_chars ht hoffset hrest]
  rfl

/-- A time is no date, since it has a colon behind the second digit. -/
theorem dateWithTime_time (t : Time) (ht : t.InDay) (rest : List Char) :
    dateWithTime (t.chars ++ rest) = none := by
  have hlength : (padded 2 t.hour).length = 2 :=
    length_padded (by decide) (by have := ht.hour_le; omega)
  obtain ⟨a, b, hhour⟩ := List.length_eq_two.mp hlength
  simp [dateWithTime, date, number, Time.chars, hhour, exactly]

theorem datetime_chars {d : Datetime} (hd : d.InCalendar) {rest : List Char}
    (hrest : Follows rest) : datetime (d.chars ++ rest) = some (d, rest) := by
  unfold datetime
  cases hd with
  | day hday =>
    have hread := dateWithTime_day hday hrest
    simp [Datetime.chars, hread]
  | @moment date time offset hday htime hoffset =>
    have htext : Datetime.chars ⟨some date, some time, offset⟩ =
        date.chars ++ 'T' :: (time.chars ++ offsetChars offset) := by
      cases offset <;> simp [Datetime.chars, offsetChars]
    have hread := dateWithTime_moment hday htime hoffset hrest
    simp [htext, hread]
  | time htime =>
    have hnone := dateWithTime_time _ htime rest
    have hread := time_chars htime (endsSecond_of_follows hrest)
    simp [Datetime.chars, hnone, hread]

theorem inCalendar_of_dateWithTime {d : Datetime} {cs rest : List Char}
    (h : dateWithTime cs = some (d, rest)) : d.InCalendar := by
  simp only [dateWithTime, Option.bind_eq_bind, Option.bind_eq_some_iff] at h
  obtain ⟨⟨date, cs⟩, hdate, h⟩ := h
  have hday := inCalendar_of_date hdate
  have hbare : ∀ {cs : List Char},
      some (({ date := some date } : Datetime), cs) = some (d, rest) → d.InCalendar := by
    intro cs heq
    obtain ⟨rfl, -⟩ := Prod.mk.inj (Option.some.inj heq)
    exact .day hday
  simp only at h
  split at h
  next =>
    split at h
    next =>
      split at h
      next time offset rest' hmoment =>
        obtain ⟨rfl, -⟩ := Prod.mk.inj (Option.some.inj h)
        obtain ⟨htime, hoffset⟩ := inDay_of_timeWithOffset hmoment
        exact .moment hday htime hoffset
      next => exact hbare h
    next => exact hbare h
  next => exact hbare h

theorem inCalendar_of_datetime {d : Datetime} {cs rest : List Char}
    (h : datetime cs = some (d, rest)) : d.InCalendar := by
  unfold datetime at h
  split at h
  next r hr =>
    obtain rfl := Option.some.inj h
    exact inCalendar_of_dateWithTime hr
  next =>
    obtain ⟨⟨t, rest'⟩, ht, heq⟩ := Option.map_eq_some_iff.mp h
    obtain ⟨rfl, -⟩ := Prod.mk.inj heq
    exact .time (inDay_of_time ht)

/-- The text of a date or of a time begins with a digit. -/
theorem Datetime.InCalendar.exists_cons {d : Datetime} (hd : d.InCalendar) :
    ∃ c cs, d.chars = c :: cs ∧ c.isDigit := by
  have hpadded : ∀ width n, ∃ c cs, padded width n = c :: cs ∧ c.isDigit := by
    intro width n
    obtain ⟨c, cs, heq⟩ := List.exists_cons_of_ne_nil (padded_ne_nil width n)
    exact ⟨c, cs, heq, isDigit_of_mem_padded (heq ▸ List.mem_cons_self)⟩
  cases hd with
  | @day date hday =>
    obtain ⟨c, cs, heq, hc⟩ := hpadded 4 date.year
    exact ⟨c, _, by simp only [Datetime.chars, Date.chars, heq, List.cons_append]; rfl, hc⟩
  | @moment date time offset hday htime hoffset =>
    obtain ⟨c, cs, heq, hc⟩ := hpadded 4 date.year
    exact ⟨c, _, by simp only [Datetime.chars, Date.chars, heq, List.cons_append]; rfl, hc⟩
  | @time time htime =>
    obtain ⟨c, cs, heq, hc⟩ := hpadded 2 time.hour
    exact ⟨c, _, by simp only [Datetime.chars, Time.chars, heq, List.cons_append]; rfl, hc⟩

/-- **A date is read as itself.** -/
theorem scalar_datetime {d : Datetime} (hd : d.InCalendar) :
    Yields scalar d.chars (.datetime d) := by
  intro rest hrest
  have hread := datetime_chars hd hrest
  obtain ⟨c, cs, heq, hc⟩ := hd.exists_cons
  rw [heq, List.cons_append] at hread ⊢
  rw [scalar_eq (.inl hc), hread]
  rfl

end Abacus.Toml
