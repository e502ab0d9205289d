import Abacus.Dict
import Abacus.Json
import Abacus.Json.Read

/-!
# Reading back what was written

The printer and the readers of JSON were made for each other: what one writes the others
read, with its meaning and to its end.  This module says so for strings, numerals and
objects.

## What may follow a value

A numeral has no end of its own.  Where it is followed by another digit, a point or the
letter of an exponent, the reader goes on, so reading back a numeral depends on the
character behind it.  In a printed text that is always a comma or a closing bracket, or
nothing at all.  `Follows` says this, and `Yields` is reading back in every such place.
-/

namespace Abacus.Json

open Abacus.Text (Reader)

/-- What may stand behind a value in a printed text. -/
def Follows : List Char → Prop
  | [] => True
  | c :: _ => c = ',' ∨ c = ']' ∨ c = '\x7d'

/-- The reader reads the text as `x`, wherever a printed value may end. -/
def Yields {α : Type} (reader : Reader α) (text : List Char) (x : α) : Prop :=
  ∀ rest, Follows rest → reader (text ++ rest) = some (x, rest)

/-! ## Strings -/

theorem digitValue?_hexDigit : ∀ n < 16, Text.digitValue? (hexDigit n) = some n := by decide

theorem stringChar_escape (c : Char) (rest : List Char) :
    Read.stringChar (escape c ++ rest) = some (some c, rest) := by
  unfold escape
  split
  case h_8 =>
    split
    next hc =>
      -- A control character is spelled by the digits of its code.
      have hhigh := digitValue?_hexDigit (c.toNat / 16) (by omega)
      have hlow := digitValue?_hexDigit (c.toNat % 16) (by omega)
      have hzero : Text.digitValue? '0' = some 0 := rfl
      have hcode : c.toNat / 16 * 16 + c.toNat % 16 = c.toNat := Nat.div_add_mod' _ _
      have hunit : Read.unit ('0' :: '0' :: hexDigit (c.toNat / 16) ::
          hexDigit (c.toNat % 16) :: rest) = some (c.toNat, rest) := by
        simp [Read.unit, hhigh, hlow, hzero, hcode]
      have hsmall : ¬ 0xD800 ≤ c.toNat := by omega
      have hlower : ¬ 0xDC00 ≤ c.toNat := by omega
      simp [Read.stringChar, hunit, hsmall, hlower, Char.ofNat_toNat]
    next hc =>
      simp only [List.cons_append, List.nil_append]
      unfold Read.stringChar
      split <;> simp_all
  all_goals rfl

/-- What stands for a character inside a string does not look like its end. -/
theorem exists_escape_eq_cons (c : Char) : ∃ d ds, escape c = d :: ds ∧ d ≠ '"' := by
  unfold escape
  split
  case h_8 hquote _ _ _ _ _ _ =>
    split
    · exact ⟨_, _, rfl, by decide⟩
    · exact ⟨c, [], rfl, hquote⟩
  all_goals exact ⟨_, _, rfl, by decide⟩

theorem stringBody_escape (cs rest : List Char) (fuel : Nat)
    (hfuel : cs.length < fuel) :
    Read.stringBody fuel (cs.flatMap escape ++ '"' :: rest) = some (some cs, rest) := by
  induction cs generalizing fuel with
  | nil =>
    obtain ⟨fuel, rfl⟩ := Nat.exists_eq_succ_of_ne_zero (Nat.ne_zero_of_lt hfuel)
    simp [Read.stringBody]
  | cons c cs ih =>
    obtain ⟨fuel, rfl⟩ := Nat.exists_eq_succ_of_ne_zero (Nat.ne_zero_of_lt hfuel)
    have htail := ih fuel (by simpa using hfuel)
    rw [List.flatMap_cons, List.append_assoc]
    rw [Read.stringBody, stringChar_escape]
    · simp [htail]
    · intro tail h
      obtain ⟨d, ds, hd, hne⟩ := exists_escape_eq_cons c
      rw [hd, List.cons_append] at h
      exact hne (List.cons.inj h).1

theorem length_le_flatMap_escape (cs : List Char) : cs.length ≤ (cs.flatMap escape).length := by
  induction cs with
  | nil => exact Nat.le_refl _
  | cons c cs ih =>
    obtain ⟨d, ds, hd, -⟩ := exists_escape_eq_cons c
    simp only [List.flatMap_cons, List.length_append, List.length_cons, hd]
    omega

/-- A quoted string is read as itself, whatever follows. -/
theorem string_quote (s : String) (rest : List Char) :
    Read.string (quote s ++ rest) = some (s, rest) := by
  have hlength := length_le_flatMap_escape s.toList
  have hform : Read.stringForm (quote s ++ rest) = some (some s, rest) := by
    simp only [Read.stringForm, quote, List.cons_append, List.append_assoc, List.nil_append,
      Read.skipSpace]
    rw [List.dropWhile_cons_of_neg (by decide)]
    simp only
    rw [stringBody_escape _ _ _ (by simp only [List.length_append]; omega)]
    simp
  rw [Read.string, hform]

/-! ## Numerals -/

/-- The numeral follows the grammar: there are digits before the point, of which no zero
leads, and a power of ten has digits. -/
structure WellFormed (n : Decimal.Numeral) : Prop where
  whole_ne_nil : n.whole ≠ []
  whole_digits : ∀ c ∈ n.whole, c.isDigit
  no_leading_zero : ∀ d ds, n.whole ≠ '0' :: d :: ds
  fraction_digits : ∀ c ∈ n.fraction, c.isDigit
  exponent_ne_nil : ∀ negative ds, n.exponent = some (negative, ds) → ds ≠ []
  exponent_digits : ∀ negative ds, n.exponent = some (negative, ds) → ∀ c ∈ ds, c.isDigit

/-- The text goes on with something other than a digit, or ends. -/
def NoDigit (cs : List Char) : Prop := ∀ c rest, cs = c :: rest → ¬ c.isDigit

theorem digits_append {ds rest : List Char} (hne : ds ≠ []) (hds : ∀ c ∈ ds, c.isDigit)
    (hrest : NoDigit rest) : Read.digits (ds ++ rest) = some (ds, rest) := by
  refine Text.Reader.some1_append hne hds fun c hc => ?_
  obtain ⟨tail, rfl⟩ := List.head?_eq_some_iff.mp hc
  exact Bool.eq_false_iff.mpr (hrest c tail rfl)

/-- The power of ten as it is written. -/
def exponentText : Option (Bool × List Char) → List Char
  | none => []
  | some (negative, ds) => 'e' :: (if negative then '-' else '+') :: ds

/-- The digits after the point as they are written, with the point. -/
def fractionText (ds : List Char) : List Char :=
  if ds.isEmpty then [] else '.' :: ds

theorem chars_eq (n : Decimal.Numeral) :
    n.chars = (if n.negative then ['-'] else []) ++ n.whole ++ fractionText n.fraction ++
      exponentText n.exponent := by
  unfold Decimal.Numeral.chars
  cases n.exponent <;> rfl

theorem Follows.noDigit {rest : List Char} (h : Follows rest) : NoDigit rest := by
  rintro c tail rfl
  rcases h with rfl | rfl | rfl <;> decide

theorem exponentPart_append {n : Decimal.Numeral} (hn : WellFormed n) {rest : List Char}
    (hrest : Follows rest) :
    Read.exponentPart (exponentText n.exponent ++ rest) = some (n.exponent, rest) := by
  cases he : n.exponent with
  | none =>
    cases rest with
    | nil => rfl
    | cons c rest => rcases hrest with rfl | rfl | rfl <;> rfl
  | some e =>
    obtain ⟨negative, ds⟩ := e
    have hds := digits_append (hn.exponent_ne_nil _ _ he) (hn.exponent_digits _ _ he) hrest.noDigit
    cases negative <;> simp [exponentText, Read.exponentPart, hds]

theorem noDigit_exponentText (e : Option (Bool × List Char)) {rest : List Char}
    (hrest : Follows rest) : NoDigit (exponentText e ++ rest) := by
  cases e with
  | none => exact hrest.noDigit
  | some e => rintro c tail h; obtain ⟨rfl, -⟩ := List.cons.inj h; decide

theorem fractionDigits_append {n : Decimal.Numeral} (hn : WellFormed n) {rest : List Char}
    (hrest : NoDigit rest) (hpoint : ∀ tail, rest ≠ '.' :: tail) :
    Read.fractionDigits (fractionText n.fraction ++ rest) = some (n.fraction, rest) := by
  unfold fractionText
  split
  next h =>
    rw [List.isEmpty_iff.mp h, List.nil_append]
    unfold Read.fractionDigits
    split
    next => exact absurd rfl (hpoint _)
    next => rfl
  next h =>
    exact digits_append (fun hnil => h (by rw [hnil]; rfl)) hn.fraction_digits hrest

theorem wholeDigits_append {n : Decimal.Numeral} (hn : WellFormed n) {rest : List Char}
    (hrest : NoDigit rest) : Read.wholeDigits (n.whole ++ rest) = some (n.whole, rest) := by
  have hds := digits_append hn.whole_ne_nil hn.whole_digits hrest
  simp only [Read.wholeDigits, hds, Option.bind_eq_bind, Option.bind_some]
  split
  next h => exact absurd h (hn.no_leading_zero _ _)
  next => rfl

theorem unsigned_append {n : Decimal.Numeral} (hn : WellFormed n) {rest : List Char}
    (hrest : Follows rest) :
    Read.unsigned n.negative (n.whole ++ (fractionText n.fraction ++
      (exponentText n.exponent ++ rest))) = some (n, rest) := by
  have hexponent := noDigit_exponentText n.exponent hrest
  have hpoint : ∀ tail, exponentText n.exponent ++ rest ≠ '.' :: tail := by
    intro tail h
    cases he : n.exponent with
    | none =>
      rw [he] at h
      have hhead : Follows ('.' :: tail) := h ▸ hrest
      rcases hhead with h | h | h <;> exact absurd h (by decide)
    | some e => rw [he] at h; exact absurd (List.cons.inj h).1 (by decide)
  have hfraction : NoDigit (fractionText n.fraction ++ (exponentText n.exponent ++ rest)) := by
    unfold fractionText
    split
    · exact hexponent
    · rintro c tail h; obtain ⟨rfl, -⟩ := List.cons.inj h; decide
  simp only [Read.unsigned, wholeDigits_append hn hfraction,
    fractionDigits_append hn hexponent hpoint, exponentPart_append hn hrest,
    Option.bind_eq_bind, Option.bind_some, Option.pure_def]

theorem isSpace_eq_false_of_isDigit {c : Char} (h : c.isDigit) : Read.isSpace c = false := by
  refine Bool.eq_false_iff.mpr fun hspace => ?_
  simp only [Read.isSpace, Bool.or_eq_true, beq_iff_eq] at hspace
  rcases hspace with ((rfl | rfl) | rfl) | rfl <;> exact absurd h (by decide)

/-- **A numeral is read as itself.** -/
theorem yields_numeral {n : Decimal.Numeral} (hn : WellFormed n) :
    Yields Read.numeral n.chars n := by
  intro rest hrest
  have hunsigned := unsigned_append hn hrest
  obtain ⟨d, ds, hwhole⟩ := List.exists_cons_of_ne_nil hn.whole_ne_nil
  have hd : d.isDigit := hn.whole_digits d (by rw [hwhole]; exact List.mem_cons_self)
  have hspace := isSpace_eq_false_of_isDigit hd
  rw [chars_eq]
  simp only [List.append_assoc]
  unfold Read.numeral Read.skipSpace
  cases hsign : n.negative with
  | true =>
    rw [hsign] at hunsigned
    simpa [Read.isSpace] using hunsigned
  | false =>
    rw [hsign, hwhole] at hunsigned
    rw [hwhole]
    simp only [Bool.false_eq_true, if_false, List.nil_append, List.cons_append, List.dropWhile_cons,
      hspace]
    split
    next h =>
      obtain ⟨rfl, -⟩ := List.cons.inj h
      exact absurd hd (by decide)
    next => exact hunsigned

/-! ## Objects

The members of an object are written from entries of some kind and read into entries of
another, with the same keys. -/

section Objects

open Entries (mapValues)

variable {α β : Type} {value : String → Reader α} {json : β → Json} {read : β → α}

/-- The values of these entries, once written, are read one by one. -/
def YieldsEach (value : String → Reader α) (json : β → Json) (read : β → α)
    (es : List (String × β)) : Prop :=
  ∀ e ∈ es, Yields (value e.1) (compact (json e.2)) (read e.2)

theorem char_cons (c : Char) (hc : Read.isSpace c = false) (cs : List Char) :
    Read.char c (c :: cs) = some ((), cs) := by
  unfold Read.char Read.skipSpace
  rw [List.dropWhile_cons_of_neg (by rw [hc]; decide)]
  simp

theorem member_append {e : String × β} (h : Yields (value e.1) (compact (json e.2)) (read e.2))
    {rest : List Char} (hrest : Follows rest) :
    Read.member Read.string value (quote e.1 ++ ':' :: (compact (json e.2) ++ rest)) =
      some ((e.1, read e.2), rest) := by
  have hcolon := char_cons ':' rfl (compact (json e.2) ++ rest)
  simp only [Read.member, string_quote, hcolon, h rest hrest, Option.bind_eq_bind,
    Option.bind_some, Option.pure_def]

/-- The text of the members after the first one, up to the end of the object. -/
def moreMembers (members : List (String × Json)) : List Char :=
  members.flatMap fun m => ',' :: (quote m.1 ++ ':' :: compact m.2)

theorem compactMembers_cons (m : String × Json) (members : List (String × Json)) :
    compactMembers (m :: members) = quote m.1 ++ ':' :: (compact m.2 ++ moreMembers members) := by
  induction members generalizing m with
  | nil => simp [compactMembers, moreMembers]
  | cons m' members ih =>
    rw [compactMembers, ih m']
    · simp [moreMembers]
    · exact List.cons_ne_nil _ _

theorem follows_moreMembers (members : List (String × Json)) (rest : List Char) :
    Follows (moreMembers members ++ '\x7d' :: rest) := by
  cases members with
  | nil => exact .inr (.inr rfl)
  | cons m members => exact .inl rfl

theorem more_moreMembers {es : List (String × β)} (h : YieldsEach value json read es)
    (rest : List Char) (fuel : Nat) (hfuel : es.length < fuel) :
    Read.more (Read.member Read.string value) '\x7d' fuel
        (moreMembers (mapValues json es) ++ '\x7d' :: rest) =
      some (mapValues read es, rest) := by
  induction es generalizing fuel with
  | nil =>
    obtain ⟨fuel, rfl⟩ := Nat.exists_eq_succ_of_ne_zero (Nat.ne_zero_of_lt hfuel)
    simp [moreMembers, Read.more, Read.skipSpace, Read.isSpace]
  | cons e es ih =>
    obtain ⟨fuel, rfl⟩ := Nat.exists_eq_succ_of_ne_zero (Nat.ne_zero_of_lt hfuel)
    have htail := ih (fun e' he' => h e' (List.mem_cons_of_mem _ he')) fuel (by simpa using hfuel)
    have hhead := member_append (h e List.mem_cons_self)
      (follows_moreMembers (mapValues json es) rest)
    have htext : moreMembers (mapValues json (e :: es)) ++ '\x7d' :: rest =
        ',' :: (quote e.1 ++ ':' :: (compact (json e.2) ++
          (moreMembers (mapValues json es) ++ '\x7d' :: rest))) := by
      simp [moreMembers]
    rw [htext]
    simp [Read.more, Read.skipSpace, Read.isSpace, hhead, htail]

theorem length_le_moreMembers (members : List (String × Json)) :
    members.length ≤ (moreMembers members).length := by
  induction members with
  | nil => exact Nat.le_refl _
  | cons m members ih =>
    simp only [moreMembers, List.flatMap_cons, List.cons_append, List.length_cons,
      List.length_append] at ih ⊢
    omega

/-- A quoted key is no closing bracket, so it starts an entry. -/
theorem entries_quote {γ : Type} (entry : Reader γ) (key : String) (cs : List Char) :
    Read.entries entry '\x7d' (quote key ++ cs) =
      (entry (quote key ++ cs)).bind fun p =>
        (Read.more entry '\x7d' (p.2.length + 1) p.2).bind fun q => some (p.1 :: q.1, q.2) := by
  simp [Read.entries, quote, Read.skipSpace, Read.isSpace]

/-- **An object is read member by member.** -/
theorem yields_object {es : List (String × β)} (h : YieldsEach value json read es) :
    Yields (Read.object value) (compact (.object (mapValues json es))) (mapValues read es) := by
  intro rest _
  have hopen := char_cons '\x7b' rfl
  simp only [compact, List.cons_append, List.append_assoc, List.nil_append, Read.object, hopen,
    Option.bind_eq_bind, Option.bind_some]
  cases es with
  | nil => simp [compactMembers, Read.entries, Read.skipSpace, Read.isSpace]
  | cons e es =>
    have hhead := member_append (h e List.mem_cons_self)
      (follows_moreMembers (mapValues json es) rest)
    have htail := more_moreMembers (fun e' he' => h e' (List.mem_cons_of_mem _ he')) rest
      ((moreMembers (mapValues json es) ++ '\x7d' :: rest).length + 1) (by
        have := length_le_moreMembers (mapValues json es)
        simp only [Entries.length_mapValues, List.length_append] at this ⊢
        omega)
    have htext : compactMembers (mapValues json (e :: es)) =
        quote e.1 ++ ':' :: (compact (json e.2) ++ moreMembers (mapValues json es)) :=
      compactMembers_cons _ _
    simp only [htext, List.append_assoc, List.cons_append]
    rw [entries_quote, hhead]
    simp only [Option.bind_some, htail]
    rfl

end Objects

end Abacus.Json
