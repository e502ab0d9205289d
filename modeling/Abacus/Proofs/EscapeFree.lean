import Abacus.Proofs.DigitGroups
import Abacus.Proofs.Lossless
import Abacus.Proofs.SaveSlots

/-!
# Texts without escape sequences

Every escape sequence begins with the escape character, so a text without this character has none.
The calculator never writes it of its own accord: numbers are written with letters, digits and
marks, JSON has another way to write control characters, and what a message quotes is a token.  A
token consists of visible characters (`Token.visible_of_tokensFrom`).

Two things are left that a text can have it from.  A message about a character that no token starts
with quotes this character, and names may come from a seed.  So the conditions here are on the line
that a message is about, and on names that are shown.
-/

namespace Abacus

/-! ## Texts -/

namespace Text

/-- The number of escape characters in a text. -/
def escapes (s : String) : Nat := s.toList.count '\x1b'

/-- There is no escape character in the text. -/
def EscapeFree (s : String) : Prop := '\x1b' ∉ s.toList

instance : DecidablePred EscapeFree := fun s => inferInstanceAs (Decidable ('\x1b' ∉ s.toList))

theorem escapes_eq_zero_iff {s : String} : escapes s = 0 ↔ EscapeFree s := List.count_eq_zero

theorem escapes_append (s t : String) : escapes (s ++ t) = escapes s + escapes t := by
  rw [escapes, String.toList_append, List.count_append, escapes, escapes]

@[simp] theorem escapeFree_append {s t : String} :
    EscapeFree (s ++ t) ↔ EscapeFree s ∧ EscapeFree t := by
  simp only [EscapeFree, String.toList_append, List.mem_append, not_or]

@[simp] theorem escapeFree_ofList {cs : List Char} :
    EscapeFree (String.ofList cs) ↔ '\x1b' ∉ cs := by
  rw [EscapeFree, String.toList_ofList]

theorem EscapeFree.of_subset {s t : String} (h : EscapeFree t) (hsub : s.toList ⊆ t.toList) :
    EscapeFree s := fun hmem => h (hsub hmem)

theorem escapeFree_intercalate {sep : String} (hsep : EscapeFree sep) {ss : List String}
    (h : ∀ s ∈ ss, EscapeFree s) : EscapeFree (String.intercalate sep ss) := by
  induction ss with
  | nil => exact List.not_mem_nil
  | cons s ss ih =>
    obtain ⟨hs, hss⟩ := List.forall_mem_cons.mp h
    cases ss with
    | nil => rwa [String.intercalate_singleton]
    | cons s' ss =>
      rw [String.intercalate_cons_cons, escapeFree_append, escapeFree_append]
      exact ⟨⟨hs, hsep⟩, ih hss⟩

theorem escape_not_mem_of_isAlphanum {cs : List Char} (h : ∀ c ∈ cs, c.isAlphanum = true) :
    '\x1b' ∉ cs := fun hmem => absurd (h _ hmem) (by decide)

theorem escape_not_mem_toDigits {base : Nat} (hlow : 1 < base) (hhigh : base ≤ 16) (n : Nat) :
    '\x1b' ∉ Nat.toDigits base n :=
  escape_not_mem_of_isAlphanum (isAlphanum_of_writes (writes_toDigits hlow hhigh n))

theorem escape_not_mem_replicate {c : Char} (hc : c ≠ '\x1b') (n : Nat) :
    '\x1b' ∉ List.replicate n c := fun hmem => hc (List.eq_of_mem_replicate hmem).symm

@[simp] theorem escapeFree_repr (n : Nat) : EscapeFree n.repr := by
  show EscapeFree (String.ofList (Nat.toDigits 10 n))
  rw [escapeFree_ofList]
  exact escape_not_mem_toDigits (by decide) (by decide) n

theorem escapeFree_toString_int (n : Int) : EscapeFree (toString n) := by
  cases n with
  | ofNat n => exact escapeFree_repr n
  | negSucc n =>
    have hsign : EscapeFree "-" := by decide
    exact escapeFree_append.mpr ⟨hsign, escapeFree_repr (n + 1)⟩

@[simp] theorem escapeFree_padLeft {width : Nat} {s : String} :
    EscapeFree (padLeft width s) ↔ EscapeFree s := by
  rw [padLeft, escapeFree_append, escapeFree_ofList]
  exact and_iff_right (escape_not_mem_replicate (by decide) _)

@[simp] theorem escapeFree_padRight {width : Nat} {s : String} :
    EscapeFree (padRight width s) ↔ EscapeFree s := by
  rw [padRight, escapeFree_append, escapeFree_ofList]
  exact and_iff_left (escape_not_mem_replicate (by decide) _)

theorem EscapeFree.trim {s : String} (h : EscapeFree s) : EscapeFree (trim s) := by
  refine h.of_subset ?_
  rw [Text.trim, String.toList_ofList, dropTrailingBlanks, dropBlanks, dropBlanks]
  refine List.Subset.trans ?_ (List.dropWhile_sublist isBlank).subset
  intro c hc
  exact List.mem_reverse.mp ((List.dropWhile_sublist isBlank).subset (List.mem_reverse.mp hc))

end Text

open Text (EscapeFree escapeFree_append escapeFree_ofList escape_not_mem_toDigits
  escape_not_mem_replicate escape_not_mem_of_isAlphanum)

/-! ## Numbers -/

namespace Decimal

theorem Numeral.escape_not_mem_chars {n : Numeral} (hwhole : '\x1b' ∉ n.whole)
    (hfraction : '\x1b' ∉ n.fraction) (hexponent : ∀ e ∈ n.exponent, '\x1b' ∉ e.2) :
    '\x1b' ∉ n.chars := by
  unfold chars
  simp only [List.mem_append, not_or]
  refine ⟨⟨⟨?_, hwhole⟩, ?_⟩, ?_⟩
  · split <;> decide
  · split
    · exact List.not_mem_nil
    · exact List.not_mem_cons_of_ne_of_not_mem (by decide) hfraction
  · split
    next => exact List.not_mem_nil
    next negative digits hdigits =>
      have hmark : '\x1b' ≠ if negative = true then '-' else '+' := by cases negative <;> decide
      exact List.not_mem_cons_of_ne_of_not_mem (by decide)
        (List.not_mem_cons_of_ne_of_not_mem hmark (hexponent _ hdigits))

theorem escape_not_mem_zeros (n : Int) : '\x1b' ∉ zeros n :=
  escape_not_mem_replicate (by decide) _

theorem escape_not_mem_ofScaled (c : Nat) (grid : Int) :
    '\x1b' ∉ (Digits.ofScaled c grid).digits := by
  intro hmem
  have hdigits := (List.dropWhile_sublist _).subset (List.mem_reverse.mp hmem)
  exact escape_not_mem_toDigits (by decide) (by decide) c (List.mem_reverse.mp hdigits)

theorem escape_not_mem_numeral {l : Layout} (hwhole : '\x1b' ∉ l.wholeFraction) (x : Double) :
    '\x1b' ∉ (l.numeral x).chars := by
  have htake {cs : List Char} (h : '\x1b' ∉ cs) (n : Nat) : '\x1b' ∉ cs.take n :=
    fun hmem => h (List.mem_of_mem_take hmem)
  have hdrop {cs : List Char} (h : '\x1b' ∉ cs) (n : Nat) : '\x1b' ∉ cs.drop n :=
    fun hmem => h (List.mem_of_mem_drop hmem)
  have happend {cs ds : List Char} (hcs : '\x1b' ∉ cs) (hds : '\x1b' ∉ ds) : '\x1b' ∉ cs ++ ds :=
    fun hmem => (List.mem_append.mp hmem).elim hcs hds
  have hzero : '\x1b' ∉ ['0'] := by decide
  have hdigits := escape_not_mem_ofScaled
  unfold Layout.numeral
  dsimp only
  split
  · exact Numeral.escape_not_mem_chars hzero hwhole nofun
  · split
    · unfold Digits.positional
      split
      · exact Numeral.escape_not_mem_chars hzero
          (happend (escape_not_mem_zeros _) (hdigits _ _)) nofun
      · split
        · exact Numeral.escape_not_mem_chars (happend (hdigits _ _) (escape_not_mem_zeros _))
            hwhole nofun
        · exact Numeral.escape_not_mem_chars (htake (hdigits _ _) _) (hdrop (hdigits _ _) _) nofun
    · refine Numeral.escape_not_mem_chars (htake (hdigits _ _) _) (hdrop (hdigits _ _) _)
        fun e he => ?_
      obtain rfl := Option.some.inj he
      exact escape_not_mem_toDigits (by decide) (by decide) _

theorem escapeFree_plain (x : Double) : EscapeFree (plain x) := by
  unfold plain
  split
  · exact escapeFree_ofList.mpr (escape_not_mem_numeral List.not_mem_nil x)
  · split
    · decide
    · split <;> decide

end Decimal

theorem Number.escapeFree_text (a : Number) : EscapeFree a.text := by
  cases a with
  | int n => exact Text.escapeFree_toString_int n.toInt
  | real x => exact Decimal.escapeFree_plain x

theorem Radix.escapeFree_render (r : Radix) (a : Number) : EscapeFree (r.render a) := by
  cases a with
  | real x => exact Decimal.escapeFree_plain x
  | int n =>
    have hdigits := escape_not_mem_of_isAlphanum (r.isAlphanum_of_mem_magnitude n.toInt.natAbs)
    rw [render, renderInt, escapeFree_ofList, List.mem_append, not_or]
    refine ⟨?_, hdigits⟩
    split <;> decide

theorem Radix.escapeFree_name (r : Radix) : EscapeFree r.name := by
  cases r <;> decide

namespace Console.Grouping

theorem mem_of_mem_separate {c : Char} {ds : List Char} (h : c ∈ separate ds) :
    c = ',' ∨ c ∈ ds := by
  induction ds with
  | nil => exact .inr h
  | cons d ds ih =>
    cases ds with
    | nil => exact .inr h
    | cons e ds =>
      simp only [separate] at h
      split at h <;> grind

/-- Nothing but commas is added. -/
theorem escapeFree_group {s : String} (h : EscapeFree s) : EscapeFree (group s) := by
  have hsplit := splitSign_append s.toList
  have hbody : (splitSign s.toList).2 ⊆ s.toList := by
    intro c hc
    rw [← hsplit]
    exact List.mem_append_right _ hc
  have hsign : (splitSign s.toList).1 ⊆ s.toList := by
    intro c hc
    rw [← hsplit]
    exact List.mem_append_left _ hc
  rw [group, escapeFree_ofList, groupChars]
  dsimp only
  split
  · intro hmem
    rcases List.mem_append.mp hmem with hmem | hmem
    · rcases List.mem_append.mp hmem with hmem | hmem
      · exact h (hsign hmem)
      · rcases mem_of_mem_separate hmem with hcomma | hmem
        · exact absurd hcomma (by decide)
        · exact h (hbody ((List.takeWhile_sublist _).subset hmem))
    · exact h (hbody ((List.dropWhile_sublist _).subset hmem))
  · exact h

end Console.Grouping

/-! ## JSON -/

namespace Json

/-- The value is written without escape characters, however far it is indented. -/
def EscapeFree (v : Json) : Prop := ∀ depth, '\x1b' ∉ v.indented depth

theorem escape_not_mem_escape (c : Char) : '\x1b' ∉ escape c := by
  unfold escape
  split
  iterate 7
    next => decide
  next =>
    have hdigit {n : Nat} (hn : n < 16) : '\x1b' ≠ hexDigit n := by
      intro heq
      have hdigit : (hexDigit n).isAlphanum = true :=
        Text.isAlphanum_of_isDigit (Text.isDigit_digitChar hn (by decide))
      rw [← heq] at hdigit
      exact absurd hdigit (by decide)
    split
    next hc =>
      have hhigh := hdigit (n := c.toNat / 16) (by omega)
      have hlow := hdigit (n := c.toNat % 16) (by omega)
      simp [hhigh, hlow]
    next hc =>
      -- The escape character itself is one of the control characters.
      rw [List.mem_singleton]
      rintro rfl
      exact hc (by decide)

theorem escape_not_mem_quote (s : String) : '\x1b' ∉ quote s := by
  rw [quote, List.mem_cons, List.mem_append, List.mem_flatMap]
  rintro (h | ⟨c, -, hc⟩ | h)
  · exact absurd h (by decide)
  · exact escape_not_mem_escape c hc
  · exact absurd h (by decide)

theorem escape_not_mem_newline (depth : Nat) : '\x1b' ∉ newline depth :=
  List.not_mem_cons_of_ne_of_not_mem (by decide) (escape_not_mem_replicate (by decide) _)

theorem escapeFree_null : EscapeFree .null := fun _ => by
  rw [indented]
  decide

theorem escapeFree_string (s : String) : EscapeFree (.string s) := fun _ => by
  rw [indented]
  exact escape_not_mem_quote s

theorem escapeFree_ofNat (n : Nat) : EscapeFree (.ofNat n) := fun _ => by
  rw [ofNat, indented]
  exact Decimal.Numeral.escape_not_mem_chars
    (escape_not_mem_toDigits (by decide) (by decide) _) List.not_mem_nil nofun

theorem escape_not_mem_indentedElements {vs : List Json} (h : ∀ v ∈ vs, EscapeFree v)
    (depth : Nat) : '\x1b' ∉ indentedElements depth vs := by
  have hline := escape_not_mem_newline depth
  induction vs with
  | nil => exact List.not_mem_nil
  | cons v vs ih =>
    obtain ⟨hv, hvs⟩ := List.forall_mem_cons.mp h
    have hvalue := hv depth
    cases vs with
    | nil => simp [indentedElements, hline, hvalue]
    | cons v' vs => simp [indentedElements, hline, hvalue, ih hvs]

theorem escape_not_mem_indentedMembers {ms : List (String × Json)} (h : ∀ m ∈ ms, EscapeFree m.2)
    (depth : Nat) : '\x1b' ∉ indentedMembers depth ms := by
  have hline := escape_not_mem_newline depth
  induction ms with
  | nil => exact List.not_mem_nil
  | cons m ms ih =>
    obtain ⟨key, v⟩ := m
    obtain ⟨hv, hms⟩ := List.forall_mem_cons.mp h
    have hkey := escape_not_mem_quote key
    have hvalue := hv depth
    cases ms with
    | nil => simp [indentedMembers, hline, hkey, hvalue]
    | cons m' ms => simp [indentedMembers, hline, hkey, hvalue, ih hms]

theorem escapeFree_array {vs : List Json} (h : ∀ v ∈ vs, EscapeFree v) :
    EscapeFree (.array vs) := fun depth => by
  have hline := escape_not_mem_newline depth
  cases vs with
  | nil => simp [indented]
  | cons v vs => simp [indented, hline, escape_not_mem_indentedElements h]

theorem escapeFree_object {ms : List (String × Json)} (h : ∀ m ∈ ms, EscapeFree m.2) :
    EscapeFree (.object ms) := fun depth => by
  have hline := escape_not_mem_newline depth
  cases ms with
  | nil => simp [indented]
  | cons m ms => simp [indented, hline, escape_not_mem_indentedMembers h]

theorem EscapeFree.pretty {v : Json} (h : EscapeFree v) : Text.EscapeFree v.pretty :=
  escapeFree_ofList.mpr (h 0)

end Json

/-! ## Messages -/

/-- What a fault quotes. -/
def SyntaxError.quoted : SyntaxError → String
  | .empty | .unexpected .ending _ _ => ""
  | .unexpectedChar char _ => String.singleton char
  | .invalidNumber text _ => text
  | .unexpected (.token text) _ _ => text
  | .unknownFormat name _ => name

theorem Expected.escapeFree_text (expected : Expected) : EscapeFree expected.text := by
  cases expected <;> decide

theorem SyntaxError.escapeFree_message {e : SyntaxError} (h : EscapeFree e.quoted) :
    EscapeFree e.message := by
  cases e with
  | empty => decide
  | unexpectedChar char pos =>
    show EscapeFree ("unexpected character '" ++ String.singleton char ++ "' at position " ++
      toString pos)
    simp only [escapeFree_append]
    exact ⟨⟨⟨by decide, h⟩, by decide⟩, Text.escapeFree_repr pos⟩
  | invalidNumber text pos =>
    show EscapeFree ("invalid number '" ++ text ++ "' at position " ++ toString pos)
    simp only [escapeFree_append]
    exact ⟨⟨⟨by decide, h⟩, by decide⟩, Text.escapeFree_repr pos⟩
  | unexpected found expected pos =>
    have hfound : EscapeFree found.text := by
      cases found with
      | ending => decide
      | token text =>
        show EscapeFree ("'" ++ text ++ "'")
        simp only [escapeFree_append]
        exact ⟨⟨by decide, h⟩, by decide⟩
    show EscapeFree ("unexpected " ++ found.text ++ " at position " ++ toString pos ++
      "; expected " ++ expected.text)
    simp only [escapeFree_append]
    exact ⟨⟨⟨⟨⟨by decide, hfound⟩, by decide⟩, Text.escapeFree_repr pos⟩, by decide⟩,
      expected.escapeFree_text⟩
  | unknownFormat name pos =>
    show EscapeFree ("unknown output format '" ++ name ++ "' at position " ++ toString pos ++
      "; expected dec, hex, oct or bin")
    simp only [escapeFree_append]
    exact ⟨⟨⟨⟨by decide, h⟩, by decide⟩, Text.escapeFree_repr pos⟩, by decide⟩

end Abacus
