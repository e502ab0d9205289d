import Abacus.Proofs.QuotedText
import Abacus.Proofs.WrittenNumbers

/-!
# Reading scalars back

Strings, integers and flags are read back as themselves from a printed file.  Reals and dates have
modules of their own; what is here about runs of digits serves them too.

## What may follow a value

Neither a number nor a date has an end of its own, so reading one back depends on what stands
behind it.  In a printed file that is the end of the line, a comma or a closing bracket, or a
closing brace behind a blank (`Follows`).  The blank alone would not do: behind a date it may
introduce a time.

## A number is not a date

A date and a time begin with digits, too, and the reader tries them first.  It gives up at the
character behind the digits, which is neither a minus sign nor a colon
(`Lexical.datetime_digits`).
-/

namespace Abacus.Toml

open Abacus.Text (Reader)
open Abacus.Text.Reader (exactly word)
open Json (digitsValue)
open Lexical

/-- What may stand behind a value in a printed file. -/
def Follows (cs : List Char) : Prop :=
  ∃ rest, cs = '\n' :: rest ∨ cs = ',' :: rest ∨ cs = ']' :: rest ∨ cs = ' ' :: '\x7d' :: rest

/-- The reader reads the text as `x`, wherever a printed value may end. -/
def Yields {α : Type} (reader : Reader α) (text : List Char) (x : α) : Prop :=
  ∀ rest, Follows rest → reader (text ++ rest) = some (x, rest)

/-- What follows a value begins with one of four characters. -/
theorem Follows.exists_cons {cs : List Char} (h : Follows cs) :
    ∃ c rest, cs = c :: rest ∧ c ∈ ['\n', ',', ']', ' '] := by
  obtain ⟨rest, rfl | rfl | rfl | rfl⟩ := h <;> exact ⟨_, _, rfl, by decide⟩

/-- A number goes no further than to this character. -/
structure EndsNumber (c : Char) : Prop where
  not_isDigit : c.isDigit = false
  ne_underscore : c ≠ '_'
  ne_minus : c ≠ '-'
  ne_colon : c ≠ ':'

theorem endsNumber_point : EndsNumber '.' := ⟨rfl, by decide, by decide, by decide⟩

theorem endsNumber_of_mem {c : Char} (h : c ∈ ['\n', ',', ']', ' ']) : EndsNumber c := by
  simp only [List.mem_cons, List.not_mem_nil, or_false] at h
  rcases h with rfl | rfl | rfl | rfl <;> exact ⟨rfl, by decide, by decide, by decide⟩

/-! ## Runs of digits -/

theorem digitIn?_of_isDigit {c : Char} (h : c.isDigit) :
    Text.digitIn? 10 c = some (c.toNat - '0'.toNat) := by
  have hlt := Json.digit_toNat_lt h
  have hval : 48 ≤ c.val ∧ c.val ≤ 57 := by simpa [Char.isDigit] using h
  have hrange : '0' ≤ c ∧ c ≤ '9' := hval
  rw [Text.digitIn?, Text.digitValue?, if_pos hrange]
  simp only [Option.filter, decide_eq_true_eq]
  exact if_pos hlt

theorem readFrom_digits {ds : List Char} (hds : ∀ c ∈ ds, c.isDigit) (n : Nat) :
    Text.readFrom 10 n ds = some (n * 10 ^ ds.length + digitsValue ds) := by
  induction ds generalizing n with
  | nil => simp [Text.readFrom, digitsValue]
  | cons c ds ih =>
    rw [List.forall_mem_cons] at hds
    have hone : digitsValue [c] = c.toNat - '0'.toNat := by simp [digitsValue]
    rw [Text.readFrom, digitIn?_of_isDigit hds.1, Option.bind_some, ih hds.2,
      ← List.singleton_append, Json.digitsValue_append, hone, List.length_append]
    simp only [List.length_singleton, Nat.pow_add]
    congr 1
    ring

theorem readNat?_digits {ds : List Char} (hne : ds ≠ []) (hds : ∀ c ∈ ds, c.isDigit) :
    Text.readNat? 10 ds = some (digitsValue ds) := by
  rw [Text.readNat?, if_neg (by simpa using hne), readFrom_digits hds, Nat.zero_mul, Nat.zero_add]

theorem moreDigits_append {ds : List Char} (hds : ∀ c ∈ ds, c.isDigit) {c : Char}
    (hc : EndsNumber c) (rest : List Char) :
    moreDigits Char.isDigit (ds ++ c :: rest) = (ds, c :: rest) := by
  induction ds with
  | nil =>
    rw [List.nil_append, moreDigits.eq_def]
    split
    next heq => cases heq
    next heq => exact absurd (List.cons.inj heq).1 hc.ne_underscore
    next heq =>
      obtain ⟨rfl, rfl⟩ := List.cons.inj heq
      simp [hc.not_isDigit]
  | cons d ds ih =>
    rw [List.forall_mem_cons] at hds
    rw [List.cons_append, moreDigits.eq_def]
    split
    next heq => cases heq
    next heq =>
      rw [(List.cons.inj heq).1] at hds
      exact absurd hds.1 (by decide)
    next heq =>
      obtain ⟨rfl, rfl⟩ := List.cons.inj heq
      rw [if_pos hds.1, ih hds.2]

theorem digitRun_append {ds : List Char} (hne : ds ≠ []) (hds : ∀ c ∈ ds, c.isDigit) {c : Char}
    (hc : EndsNumber c) (rest : List Char) :
    digitRun Char.isDigit (ds ++ c :: rest) = some (ds, c :: rest) := by
  obtain ⟨d, ds, rfl⟩ := List.exists_cons_of_ne_nil hne
  rw [List.forall_mem_cons] at hds
  rw [List.cons_append, digitRun, if_pos hds.1, moreDigits_append hds.2 hc]

/-- A run of digits of which no zero leads. -/
structure IsWhole (ds : List Char) : Prop where
  ne_nil : ds ≠ []
  isDigit : ∀ c ∈ ds, c.isDigit
  no_leading_zero : ∀ d es, ds ≠ '0' :: d :: es

theorem IsWhole.exists_cons {ds : List Char} (h : IsWhole ds) :
    ∃ d es, ds = d :: es ∧ d.isDigit := by
  obtain ⟨d, es, rfl⟩ := List.exists_cons_of_ne_nil h.ne_nil
  exact ⟨d, es, rfl, h.isDigit d List.mem_cons_self⟩

theorem wholeDigits_append {ds : List Char} (h : IsWhole ds) {c : Char} (hc : EndsNumber c)
    (rest : List Char) : wholeDigits (ds ++ c :: rest) = some (ds, c :: rest) := by
  obtain ⟨d, es, rfl, -⟩ := h.exists_cons
  by_cases hd : d = '0'
  · subst hd
    cases es with
    | nil => rfl
    | cons e es => exact absurd rfl (h.no_leading_zero e es)
  · rw [← digitRun_append h.ne_nil h.isDigit hc rest]
    rw [List.cons_append, wholeDigits]
    exact fun es heq => hd (List.cons.inj heq).1

/-- The sign of a number in a printed file. -/
def signChars (negative : Bool) : List Char := if negative then ['-'] else []

theorem sign_append (negative : Bool) {c : Char} (hc : c.isDigit ∨ c = 'i' ∨ c = 'n')
    (cs : List Char) : sign (signChars negative ++ c :: cs) = some (negative, c :: cs) := by
  cases negative with
  | true => rfl
  | false =>
    rw [signChars, if_neg Bool.false_ne_true, List.nil_append, sign.eq_def]
    split
    next heq =>
      rw [(List.cons.inj heq).1] at hc
      exact absurd hc (by decide)
    next heq =>
      rw [(List.cons.inj heq).1] at hc
      exact absurd hc (by decide)
    next => rfl

/-! ## Numbers are no dates -/

namespace Lexical

theorem number_of_not_isDigit {c : Char} (h : c.isDigit = false) (width low high : Nat)
    (cs : List Char) : number (width + 1) low high (c :: cs) = none := by
  simp [number, exactly, h]

/-- Behind some of the digits there is a digit or the character that ends them. -/
theorem exactly_append {ds : List Char} (hds : ∀ c ∈ ds, c.isDigit) {c : Char}
    (hc : c.isDigit = false) (width : Nat) (rest : List Char) :
    (∃ es fs, exactly Char.isDigit width (ds ++ c :: rest) = some (es, fs ++ c :: rest) ∧
      ∀ d ∈ fs, d.isDigit) ∨
    exactly Char.isDigit width (ds ++ c :: rest) = none := by
  induction width generalizing ds with
  | zero => exact .inl ⟨[], ds, rfl, hds⟩
  | succ width ih =>
    cases ds with
    | nil => exact .inr (by simp [exactly, hc])
    | cons d ds =>
      rw [List.forall_mem_cons] at hds
      rw [List.cons_append, exactly, if_pos hds.1]
      rcases ih hds.2 with ⟨es, fs, heq, hfs⟩ | hnone
      · exact .inl ⟨d :: es, fs, by rw [heq]; rfl, hfs⟩
      · exact .inr (by rw [hnone]; rfl)

/-- Behind a number of a fixed width there is no separator. -/
theorem word_of_number {ds : List Char} (hds : ∀ c ∈ ds, c.isDigit) {c x : Char}
    (hc : c.isDigit = false) (hx : x.isDigit = false) (hne : c ≠ x) {width low high n : Nat}
    {rest cs : List Char} (h : number width low high (ds ++ c :: rest) = some (n, cs)) :
    word [x] cs = none := by
  unfold number at h
  rcases exactly_append hds hc width rest with ⟨es, fs, heq, hfs⟩ | hnone
  · simp only [heq, Option.bind_eq_bind, Option.bind_some, Option.bind_eq_some_iff] at h
    obtain ⟨m, -, h⟩ := h
    split at h
    next =>
      obtain ⟨-, rfl⟩ := Prod.mk.inj (Option.some.inj h)
      cases fs with
      | nil => exact if_neg hne
      | cons d fs =>
        refine if_neg ?_
        rintro rfl
        rw [List.forall_mem_cons, hx] at hfs
        exact absurd hfs.1 Bool.false_ne_true
    next => cases h
  · simp [hnone] at h

theorem date_digits {ds : List Char} (hds : ∀ c ∈ ds, c.isDigit) {c : Char}
    (hc : EndsNumber c) (rest : List Char) : date (ds ++ c :: rest) = none := by
  unfold date
  cases hnumber : number 4 0 9999 (ds ++ c :: rest) with
  | none => rfl
  | some r => simp [word_of_number hds hc.not_isDigit rfl hc.ne_minus hnumber]

theorem time_digits {ds : List Char} (hds : ∀ c ∈ ds, c.isDigit) {c : Char}
    (hc : EndsNumber c) (rest : List Char) : time (ds ++ c :: rest) = none := by
  unfold time
  cases hnumber : number 2 0 23 (ds ++ c :: rest) with
  | none => rfl
  | some r => simp [word_of_number hds hc.not_isDigit rfl hc.ne_colon hnumber]

theorem datetime_of_none {cs : List Char} (hdate : date cs = none) (htime : time cs = none) :
    datetime cs = none := by
  simp [datetime, dateWithTime, hdate, htime]

theorem datetime_of_not_isDigit {c : Char} (h : c.isDigit = false) (cs : List Char) :
    datetime (c :: cs) = none := by
  refine datetime_of_none ?_ ?_
  · unfold date
    rw [number_of_not_isDigit h]
    rfl
  · unfold time
    rw [number_of_not_isDigit h]
    rfl

theorem datetime_digits (negative : Bool) {ds : List Char} (hds : ∀ c ∈ ds, c.isDigit) {c : Char}
    (hc : EndsNumber c) (rest : List Char) :
    datetime (signChars negative ++ (ds ++ c :: rest)) = none := by
  cases negative with
  | true => exact datetime_of_not_isDigit rfl _
  | false => exact datetime_of_none (date_digits hds hc rest) (time_digits hds hc rest)

/-- What does not begin like a string or a flag is a date or a number. -/
theorem scalar_eq {c : Char} (hc : c.isDigit ∨ c = '-' ∨ c = 'i' ∨ c = 'n') (cs : List Char) :
    scalar (c :: cs) = (((datetime (c :: cs)).map fun r => (.datetime r.1, r.2)) <|>
      decimal (c :: cs) <|> special (c :: cs) <|> integer (c :: cs)) := by
  unfold scalar
  split
  case h_5 => rfl
  all_goals
    rename_i heq
    rw [(List.cons.inj heq).1] at hc
    exact absurd hc (by decide)

end Lexical

/-! ## Integers -/

section Digits

variable (negative : Bool) {ds : List Char} (hds : IsWhole ds)

include hds

theorem sign_digits (rest : List Char) :
    sign (signChars negative ++ (ds ++ rest)) = some (negative, ds ++ rest) := by
  obtain ⟨d, es, rfl, hd⟩ := hds.exists_cons
  exact sign_append negative (.inl hd) _

theorem special_digits (rest : List Char) :
    special (signChars negative ++ (ds ++ rest)) = none := by
  unfold special
  rw [sign_digits negative hds]
  obtain ⟨d, es, rfl, hd⟩ := hds.exists_cons
  simp only [Option.bind_eq_bind, Option.bind_some, List.cons_append]
  split
  next heq =>
    rw [(List.cons.inj heq).1] at hd
    exact absurd hd (by decide)
  next heq =>
    rw [(List.cons.inj heq).1] at hd
    exact absurd hd (by decide)
  next => rfl

/-- Behind an integer there is neither a point nor a power of ten. -/
theorem decimal_digits {c : Char} (hc : c ∈ ['\n', ',', ']', ' ']) (rest : List Char) :
    decimal (signChars negative ++ (ds ++ c :: rest)) = none := by
  have hfraction : fraction (c :: rest) = some ([], c :: rest) := by
    simp only [List.mem_cons, List.not_mem_nil, or_false] at hc
    rcases hc with rfl | rfl | rfl | rfl <;> rfl
  have hexponent : exponent (c :: rest) = some (none, c :: rest) := by
    simp only [List.mem_cons, List.not_mem_nil, or_false] at hc
    rcases hc with rfl | rfl | rfl | rfl <;> rfl
  simp [decimal, sign_digits negative hds, wholeDigits_append hds (endsNumber_of_mem hc), hfraction,
    hexponent]

/-- Decimal digits do not look like the prefix of another base. -/
theorem digits_ne_based {c : Char} (hc : c ∈ ['\n', ',', ']', ' ']) (rest : List Char) {x : Char}
    (hx : x ∈ ['x', 'o', 'b']) (tail : List Char) :
    signChars negative ++ (ds ++ c :: rest) ≠ '0' :: x :: tail := by
  intro heq
  cases negative with
  | true => exact absurd (List.cons.inj heq).1 (by decide)
  | false =>
    obtain ⟨d, es, rfl, -⟩ := hds.exists_cons
    obtain ⟨rfl, htail⟩ := List.cons.inj heq
    cases es with
    | nil =>
      obtain rfl := (List.cons.inj htail).1
      simp only [List.mem_cons, List.not_mem_nil, or_false] at hx
      rcases hx with rfl | rfl | rfl <;> exact absurd hc (by decide)
    | cons e es => exact hds.no_leading_zero e es rfl

theorem integer_digits {c : Char} (hc : c ∈ ['\n', ',', ']', ' ']) (rest : List Char) :
    integer (signChars negative ++ (ds ++ c :: rest)) =
      (integerOf? negative (digitsValue ds)).map fun v => (v, c :: rest) := by
  unfold integer
  split
  next heq => exact absurd heq (digits_ne_based negative hds hc rest (by decide) _)
  next heq => exact absurd heq (digits_ne_based negative hds hc rest (by decide) _)
  next heq => exact absurd heq (digits_ne_based negative hds hc rest (by decide) _)
  next =>
    simp only [sign_digits negative hds, wholeDigits_append hds (endsNumber_of_mem hc),
      readNat?_digits hds.ne_nil hds.isDigit, Option.bind_eq_bind, Option.bind_some]
    cases integerOf? negative (digitsValue ds) <;> rfl

/-- A number begins with a sign or a digit. -/
theorem exists_number_eq_cons (rest : List Char) :
    ∃ e tail, signChars negative ++ (ds ++ rest) = e :: tail ∧
      (e.isDigit ∨ e = '-' ∨ e = 'i' ∨ e = 'n') := by
  obtain ⟨d, es, rfl, hd⟩ := hds.exists_cons
  cases negative with
  | true => exact ⟨_, _, rfl, .inr (.inl rfl)⟩
  | false => exact ⟨_, _, rfl, .inl hd⟩

end Digits

theorem isWhole_toDigits (n : Nat) : IsWhole (Nat.toDigits 10 n) where
  ne_nil := Nat.toDigits_ne_nil
  isDigit _ hc := Nat.isDigit_of_mem_toDigits (by decide) le_rfl hc
  no_leading_zero d es := Json.no_leading_zero_toDigits n d es

theorem chars_ofInt (n : Int) :
    (Decimal.Numeral.ofInt n).chars = signChars (n < 0) ++ Nat.toDigits 10 n.natAbs := by
  simp [Decimal.Numeral.chars, Decimal.Numeral.ofInt, signChars]

theorem integerOf?_natAbs {n : Int} (h : (Number.fit? n).isSome = true) :
    integerOf? (n < 0) n.natAbs = some (.integer n) := by
  have hvalue : (if decide (n < 0) = true then -(n.natAbs : Int) else (n.natAbs : Int)) = n := by
    by_cases hn : n < 0
    · rw [if_pos (decide_eq_true hn)]
      omega
    · rw [if_neg (by simpa using hn)]
      omega
  simp only [integerOf?, hvalue, h, if_true]

/-- **An integer is read as itself.** -/
theorem scalar_ofInt {n : Int} (h : (Number.fit? n).isSome = true) :
    Yields scalar (Decimal.Numeral.ofInt n).chars (.integer n) := by
  intro rest hrest
  obtain ⟨c, rest, rfl, hc⟩ := hrest.exists_cons
  have hds := isWhole_toDigits n.natAbs
  have hdate := datetime_digits (n < 0) hds.isDigit (endsNumber_of_mem hc) rest
  have hdecimal := decimal_digits (n < 0) hds hc rest
  have hspecial := special_digits (n < 0) hds (c :: rest)
  have hinteger := integer_digits (n < 0) hds hc rest
  rw [Json.digitsValue_toDigits, integerOf?_natAbs h] at hinteger
  rw [chars_ofInt, List.append_assoc]
  obtain ⟨e, tail, htext, he⟩ := exists_number_eq_cons (n < 0) hds (c :: rest)
  rw [htext] at hdate hdecimal hspecial hinteger ⊢
  rw [scalar_eq he, hdate, hdecimal, hspecial, hinteger]
  rfl

/-! ## Flags and strings -/

/-- A flag in a printed file. -/
theorem scalar_true : Yields scalar ['t', 'r', 'u', 'e'] (.boolean true) := by
  intro rest _
  have hword := Text.Reader.word_append "rue".toList rest
  show (word "rue".toList ("rue".toList ++ rest)).map (fun r => (Value.boolean true, r.2)) = _
  rw [hword]
  rfl

theorem scalar_false : Yields scalar ['f', 'a', 'l', 's', 'e'] (.boolean false) := by
  intro rest _
  have hword := Text.Reader.word_append "alse".toList rest
  show (word "alse".toList ("alse".toList ++ rest)).map (fun r => (Value.boolean false, r.2)) = _
  rw [hword]
  rfl

/-- A quoted string begins with a quotation mark. -/
theorem exists_quote_eq_cons (s : String) :
    ∃ q cs, quote s = q :: cs ∧ (q = '"' ∨ q = '\'') := by
  unfold quote quoteAs
  cases (Traits.ofChars s.toList).quoting with
  | basic => exact ⟨_, _, rfl, .inl rfl⟩
  | literal => exact ⟨_, _, rfl, .inr rfl⟩
  | basicLines => exact ⟨_, _, rfl, .inl rfl⟩
  | literalLines => exact ⟨_, _, rfl, .inr rfl⟩

theorem scalar_quote (s : String) : Yields scalar (quote s) (.string s) := by
  intro rest hrest
  obtain ⟨c, tail, rfl, hmem⟩ := hrest.exists_cons
  have hread : string (quote s ++ c :: tail) = some (s, c :: tail) := by
    refine string_quote s ?_ ?_ <;>
    · rintro heq
      rw [Option.some.inj heq] at hmem
      exact absurd hmem (by decide)
  obtain ⟨q, cs, hquote, hq⟩ := exists_quote_eq_cons s
  rw [hquote, List.cons_append] at hread ⊢
  rcases hq with rfl | rfl
  · show (string ('"' :: (cs ++ c :: tail))).map (fun r => (Value.string r.1, r.2)) = _
    rw [hread]
    rfl
  · show (string ('\'' :: (cs ++ c :: tail))).map (fun r => (Value.string r.1, r.2)) = _
    rw [hread]
    rfl

end Abacus.Toml
