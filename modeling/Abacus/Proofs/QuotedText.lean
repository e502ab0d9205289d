import Abacus.Toml.Lexical
import Abacus.Toml.Quoted

/-!
# Reading quoted strings back

Whatever a string contains, and whichever of the four ways of quoting is taken for it, the reader
of strings gives the string back and stops where the closing quotes end (`Lexical.string_quote`).
The same holds for keys (`Lexical.keyPart_quoteKey`).

## Runs of quotes

On several lines up to two quotes in a row stand for themselves, and the reader takes a whole run
of them at once.  So a run is carried along while a string is gone through: the lemmas about
`lineChars` are about a string that is preceded by `k` quotes, which have been passed already.
Between double quotes a third quote is escaped and the run begins anew; between single quotes
there is no third one, or another way of quoting would have been taken.
-/

namespace Abacus.Toml

open Lexical

/-! ## Single characters -/

theorem digitValue?_upperHex : ∀ n < 16, Text.digitValue? (upperHex n) = some n := by decide

theorem isText_of_not_isControl {c : Char} (h : isControl c = false) (hfeed : c ≠ '\n') :
    isText c = true := by
  unfold isControl at h
  unfold isText
  by_cases htab : c = '\t'
  · simp [htab]
  · simp only [Bool.or_eq_false_iff, Bool.and_eq_false_iff, decide_eq_false_iff_not,
      bne_eq_false_iff_eq, htab, hfeed, or_false, beq_eq_false_iff_ne] at h
    simp only [Bool.or_eq_true, Bool.and_eq_true, decide_eq_true_eq, bne_iff_ne]
    exact .inr ⟨Nat.le_of_not_lt h.1, h.2⟩

theorem toNat_lt_of_isControl {c : Char} (h : isControl c = true) : c.toNat < 128 := by
  unfold isControl at h
  simp only [Bool.or_eq_true, Bool.and_eq_true, decide_eq_true_eq, beq_iff_eq] at h
  omega

/-- A character is spelled by the digits of its code. -/
theorem codePoint_upperHex {c : Char} (h : c.toNat < 128) (rest : List Char) :
    codePoint 4 ('0' :: '0' :: upperHex (c.toNat / 16) :: upperHex (c.toNat % 16) :: rest) =
      some (c, rest) := by
  have hhigh := digitValue?_upperHex (c.toNat / 16) (by omega)
  have hlow := digitValue?_upperHex (c.toNat % 16) (by omega)
  have hzero : Text.digitValue? '0' = some 0 := rfl
  have hvalid : Nat.isValidChar c.toNat := c.valid
  have hcode : 16 * (c.toNat / 16) + c.toNat % 16 = c.toNat := Nat.div_add_mod _ _
  simp [codePoint, Text.Reader.exactly, isHexDigit, hhigh, hlow, hzero, Text.readNat?,
    Text.readFrom, Text.digitIn?, Option.filter, show c.toNat / 16 < 16 by omega,
    show c.toNat % 16 < 16 by omega, hcode, hvalid, Char.ofNat_toNat]

theorem afterNewline?_eq_none {c : Char} (hfeed : c ≠ '\n') (hreturn : c ≠ '\r')
    (cs : List Char) : afterNewline? (c :: cs) = none := by
  rw [afterNewline?.eq_def]
  split
  next heq => exact absurd (List.cons.inj heq).1 hfeed
  next heq => exact absurd (List.cons.inj heq).1 hreturn
  next => rfl

/-- Between double quotes a character is escaped, or it stands for itself. -/
theorem escapeChar_cases (lines : Bool) (c : Char) :
    (∃ cs, escapeChar lines c = '\\' :: cs ∧
      ∀ rest, escape (cs ++ rest) = some (c, rest) ∧ continued? (cs ++ rest) = none) ∨
    (escapeChar lines c = [c] ∧ c ≠ '\\' ∧ (isText c = true ∨ lines = true ∧ c = '\n')) := by
  have hescape : ∀ d : Char, isSpace d = false → d ≠ '\n' → d ≠ '\r' → ∀ cs : List Char,
      continued? (d :: cs) = none := fun d hspace hfeed hreturn cs => by
    have hskip : skipSpaces (d :: cs) = d :: cs := List.dropWhile_cons_of_neg (by simp [hspace])
    unfold continued?
    rw [hskip, afterNewline?_eq_none hfeed hreturn]
    rfl
  unfold escapeChar
  split
  case h_3 =>
    cases lines with
    | true => exact .inr ⟨rfl, by decide, .inr ⟨rfl, rfl⟩⟩
    | false => exact .inl ⟨['n'], rfl, fun rest => ⟨rfl, hescape 'n' rfl (by decide) (by decide) _⟩⟩
  case h_7 hbackspace htab hfeed hform hreturn hslash =>
    split
    next hcontrol =>
      refine .inl ⟨_, rfl, fun rest => ⟨?_, hescape 'u' rfl (by decide) (by decide) _⟩⟩
      exact codePoint_upperHex (toNat_lt_of_isControl hcontrol) rest
    next hcontrol =>
      exact .inr ⟨rfl, hslash, .inl (isText_of_not_isControl (by simpa using hcontrol) hfeed)⟩
  all_goals
    exact .inl ⟨_, rfl, fun rest => ⟨rfl, hescape _ rfl (by decide) (by decide) _⟩⟩

theorem escapeFrom_cons_of_ne {c : Char} (h : c ≠ '"') (lines : Bool) (quotes : Nat)
    (cs : List Char) :
    escapeFrom lines quotes (c :: cs) = escapeChar lines c ++ escapeFrom lines 0 cs := by
  rw [escapeFrom]
  exact h

/-- On one line every double quote is escaped. -/
theorem escapeFrom_false_quote (quotes : Nat) (cs : List Char) :
    escapeFrom false quotes ('"' :: cs) = '\\' :: '"' :: escapeFrom false 0 cs := by
  rw [escapeFrom]
  exact if_neg (Nat.not_lt_zero quotes)

/-- On several lines every third one is. -/
theorem escapeFrom_true_quote (quotes : Nat) (cs : List Char) :
    escapeFrom true quotes ('"' :: cs) =
      if quotes < 2 then '"' :: escapeFrom true (quotes + 1) cs
      else '\\' :: '"' :: escapeFrom true 0 cs := by
  rw [escapeFrom]
  rfl

theorem length_le_escapeFrom (lines : Bool) (quotes : Nat) (cs : List Char) :
    cs.length ≤ (escapeFrom lines quotes cs).length := by
  induction cs generalizing quotes with
  | nil => exact Nat.zero_le _
  | cons c cs ih =>
    by_cases hquote : c = '"'
    · subst hquote
      have hmore := ih (quotes + 1)
      have hfresh := ih 0
      cases lines with
      | false =>
        rw [escapeFrom_false_quote]
        simp only [List.length_cons]
        omega
      | true =>
        rw [escapeFrom_true_quote]
        split <;> simp only [List.length_cons] <;> omega
    · have htail := ih 0
      rw [escapeFrom_cons_of_ne hquote, List.length_append, List.length_cons]
      have hhead : 1 ≤ (escapeChar lines c).length := by
        rcases escapeChar_cases lines c with ⟨ds, hds, -⟩ | ⟨hds, -⟩ <;> simp [hds]
      omega

/-! ## Strings on one line -/

theorem basicChars_of_isText {c : Char} (htext : isText c = true) (hquote : c ≠ '"')
    (hslash : c ≠ '\\') (fuel : Nat) (cs : List Char) :
    basicChars (fuel + 1) (c :: cs) = (basicChars fuel cs).map fun r => (c :: r.1, r.2) := by
  rw [basicChars]
  · rw [if_pos htext]
  · exact hquote
  · exact hslash

theorem basicChars_escape {c : Char} {cs rest : List Char} (h : escape cs = some (c, rest))
    (fuel : Nat) :
    basicChars (fuel + 1) ('\\' :: cs) = (basicChars fuel rest).map fun r => (c :: r.1, r.2) := by
  rw [basicChars, h]
  show (basicChars fuel rest).bind (fun r => some (c :: r.1, r.2)) = _
  cases basicChars fuel rest <;> rfl

theorem basicChars_escapeFrom (cs rest : List Char) (quotes fuel : Nat) (h : cs.length < fuel) :
    basicChars fuel (escapeFrom false quotes cs ++ '"' :: rest) = some (cs, rest) := by
  induction cs generalizing quotes fuel with
  | nil =>
    obtain ⟨fuel, rfl⟩ := Nat.exists_eq_succ_of_ne_zero (Nat.ne_zero_of_lt h)
    rfl
  | cons c cs ih =>
    obtain ⟨fuel, rfl⟩ := Nat.exists_eq_succ_of_ne_zero (Nat.ne_zero_of_lt h)
    have htail := ih 0 fuel (Nat.lt_of_succ_lt_succ h)
    by_cases hquote : c = '"'
    · subst hquote
      rw [escapeFrom_false_quote, List.cons_append, List.cons_append, basicChars_escape rfl, htail]
      rfl
    · rw [escapeFrom_cons_of_ne hquote, List.append_assoc]
      rcases escapeChar_cases false c with ⟨ds, hds, hread⟩ | ⟨hds, hslash, htext⟩
      · rw [hds, List.cons_append, basicChars_escape (hread _).1, htail]
        rfl
      · rw [hds, List.singleton_append,
          basicChars_of_isText (by simpa using htext) hquote hslash, htail]
        rfl

theorem literalChars_append {cs : List Char} (h : ∀ c ∈ cs, isText c = true ∧ c ≠ '\'')
    (rest : List Char) : literalChars (cs ++ '\'' :: rest) = some (cs, rest) := by
  have hplain : ∀ c ∈ cs, (isText c && c != '\'') = true := fun c hc => by simp [h c hc]
  have hend : ∀ c ∈ ('\'' :: rest).head?, (isText c && c != '\'') = false := by simp
  obtain ⟨htake, hdrop⟩ := Text.run_append hplain hend
  unfold literalChars
  rw [htake, hdrop]
  rfl

/-! ## Strings of several lines -/

theorem takeWhile_replicate_append {q : Char} {rest : List Char} (h : rest.head? ≠ some q)
    (n : Nat) :
    (List.replicate n q ++ rest).takeWhile (· == q) = List.replicate n q ∧
      (List.replicate n q ++ rest).dropWhile (· == q) = rest := by
  have hrun : ∀ c ∈ List.replicate n q, (c == q) = true := fun c hc => by
    simp [List.eq_of_mem_replicate hc]
  refine Text.run_append hrun fun c hc => beq_eq_false_iff_ne.mpr ?_
  rintro rfl
  exact h hc

theorem lineChars_replicate {q : Char} {n : Nat} {cs : List Char} (hcs : cs.head? ≠ some q)
    (fuel : Nat) :
    lineChars q (fuel + 1) (List.replicate (n + 1) q ++ cs) =
      match QuoteRun.ofLength (n + 1) with
      | .inside n => (lineChars q fuel cs).map fun r => (List.replicate n q ++ r.1, r.2)
      | .closing n => some (List.replicate n q, cs)
      | .tooLong => none := by
  obtain ⟨htake, hdrop⟩ := takeWhile_replicate_append hcs n
  rw [List.replicate_succ, List.cons_append, lineChars, if_pos rfl]
  cases hrun : QuoteRun.ofLength (n + 1) <;> simp [htake, hdrop, hrun]

/-- One or two quotes belong to the string. -/
theorem lineChars_inside {q : Char} {n : Nat} {cs : List Char} (hn : n ≤ 2)
    (hcs : cs.head? ≠ some q) {fuel : Nat} (hfuel : n ≠ 0 → fuel ≠ 0) :
    lineChars q fuel (List.replicate n q ++ cs) =
      (lineChars q (fuel - min n 1) cs).map fun r => (List.replicate n q ++ r.1, r.2) := by
  cases n with
  | zero => simp
  | succ n =>
    obtain ⟨fuel, rfl⟩ := Nat.exists_eq_succ_of_ne_zero (hfuel (Nat.succ_ne_zero n))
    rw [lineChars_replicate hcs, QuoteRun.ofLength, if_pos hn]
    simp

/-- Three quotes close the string, and up to two more in front of them belong to it. -/
theorem lineChars_closing {q : Char} {n : Nat} {rest : List Char} (hn : n ≤ 2)
    (hrest : rest.head? ≠ some q) (fuel : Nat) :
    lineChars q (fuel + 1) (List.replicate n q ++ q :: q :: q :: rest) =
      some (List.replicate n q, rest) := by
  have hrun : List.replicate n q ++ q :: q :: q :: rest = List.replicate (n + 2 + 1) q ++ rest := by
    rw [show n + 2 + 1 = n + 3 from rfl, ← List.replicate_append_replicate, List.append_assoc]
    rfl
  rw [hrun, lineChars_replicate hrest, QuoteRun.ofLength, if_neg (by omega), if_pos (by omega)]
  simp

theorem lineChars_char {q c : Char} (hc : c ≠ q) (hslash : ¬ (c = '\\' ∧ q = '"'))
    (htext : isText c = true ∨ c = '\n') (fuel : Nat) (cs : List Char) :
    lineChars q (fuel + 1) (c :: cs) = (lineChars q fuel cs).map fun r => (c :: r.1, r.2) := by
  rw [lineChars, if_neg hc, if_neg hslash]
  by_cases hfeed : c = '\n'
  · subst hfeed
    rfl
  · have htext := htext.resolve_right hfeed
    have hreturn : c ≠ '\r' := by
      rintro rfl
      exact absurd htext (by decide)
    rw [afterNewline?_eq_none hfeed hreturn]
    simp only [htext, if_true]

theorem lineChars_escape {c : Char} {cs rest : List Char} (h : escape cs = some (c, rest))
    (hline : continued? cs = none) (fuel : Nat) :
    lineChars '"' (fuel + 1) ('\\' :: cs) =
      (lineChars '"' fuel rest).map fun r => (c :: r.1, r.2) := by
  rw [lineChars, if_neg (by decide), if_pos ⟨rfl, rfl⟩, hline, h]
  show (lineChars '"' fuel rest).bind (fun r => some (c :: r.1, r.2)) = _
  cases lineChars '"' fuel rest <;> rfl

/-- Between double quotes, after a run of `k` of them. -/
theorem lineChars_escapeFrom {rest : List Char} (hrest : rest.head? ≠ some '"') (cs : List Char)
    {k fuel : Nat} (hk : k ≤ 2) (h : cs.length + k < fuel) :
    lineChars '"' fuel
        (List.replicate k '"' ++ (escapeFrom true k cs ++ '"' :: '"' :: '"' :: rest)) =
      some (List.replicate k '"' ++ cs, rest) := by
  induction cs generalizing k fuel with
  | nil =>
    obtain ⟨fuel, rfl⟩ := Nat.exists_eq_succ_of_ne_zero (Nat.ne_zero_of_lt h)
    rw [escapeFrom, List.nil_append, lineChars_closing hk hrest, List.append_nil]
  | cons c cs ih =>
    rw [List.length_cons] at h
    -- What follows the run does not begin with a quote, so the run is read first.
    have hread : ∀ {text : List Char}, text.head? ≠ some '"' →
        lineChars '"' (fuel - min k 1) text = some (c :: cs, rest) →
          lineChars '"' fuel (List.replicate k '"' ++ text) =
            some (List.replicate k '"' ++ c :: cs, rest) := fun htext hline => by
      rw [lineChars_inside hk htext (by omega), hline]
      rfl
    obtain ⟨next, hnext⟩ : ∃ next, fuel - min k 1 = next + 1 := ⟨fuel - min k 1 - 1, by omega⟩
    have htail := ih (Nat.zero_le 2) (show cs.length + 0 < next by omega)
    rw [List.replicate_zero, List.nil_append, List.nil_append] at htail
    by_cases hquote : c = '"'
    · subst hquote
      rw [escapeFrom_true_quote]
      split
      next hlt =>
        have hmore := ih (show k + 1 ≤ 2 from hlt) (show cs.length + (k + 1) < fuel by omega)
        rw [List.replicate_succ', List.append_assoc, List.append_assoc] at hmore
        exact hmore
      next =>
        refine hread (by simp) ?_
        rw [hnext, List.cons_append, List.cons_append, lineChars_escape rfl rfl, htail]
        rfl
    · rw [escapeFrom_cons_of_ne hquote, List.append_assoc]
      rcases escapeChar_cases true c with ⟨ds, hds, hescape⟩ | ⟨hds, hslash, htext⟩
      · refine hread (by simp [hds]) ?_
        rw [hnext, hds, List.cons_append, lineChars_escape (hescape _).1 (hescape _).2, htail]
        rfl
      · refine hread (by simpa [hds] using hquote) ?_
        rw [hnext, hds, List.singleton_append, lineChars_char hquote (fun h => hslash h.1)
          (htext.imp_right And.right), htail]
        rfl

theorem le_longestRunFrom (q : Char) (current best : Nat) (cs : List Char) :
    current ≤ longestRunFrom q current best cs ∧ best ≤ longestRunFrom q current best cs := by
  induction cs generalizing current best with
  | nil => exact ⟨Nat.le_max_left _ _, Nat.le_max_right _ _⟩
  | cons c cs ih =>
    rw [longestRunFrom]
    split
    · exact ⟨Nat.le_trans (Nat.le_succ _) (ih _ _).1, (ih _ _).2⟩
    · exact ⟨Nat.le_trans (Nat.le_max_left _ _) (ih _ _).2,
        Nat.le_trans (Nat.le_max_right _ _) (ih _ _).2⟩

theorem not_mem_of_longestRun {q : Char} {cs : List Char} {current best : Nat}
    (h : longestRunFrom q current best cs = 0) : q ∉ cs := by
  induction cs generalizing current best with
  | nil => simp
  | cons c cs ih =>
    rw [longestRunFrom] at h
    split at h
    · have := (le_longestRunFrom q (current + 1) best cs).1
      omega
    next hne => exact mt List.mem_cons.mp (not_or.mpr ⟨Ne.symm hne, ih h⟩)

/-- Between single quotes, after a run of `k` of them. -/
theorem lineChars_plain {rest : List Char} (hrest : rest.head? ≠ some '\'') {cs : List Char}
    (hcs : ∀ c ∈ cs, isText c = true ∨ c = '\n') {k best fuel : Nat}
    (hrun : longestRunFrom '\'' k best cs ≤ 2) (h : cs.length + k < fuel) :
    lineChars '\'' fuel (List.replicate k '\'' ++ (cs ++ '\'' :: '\'' :: '\'' :: rest)) =
      some (List.replicate k '\'' ++ cs, rest) := by
  induction cs generalizing k best fuel with
  | nil =>
    obtain ⟨fuel, rfl⟩ := Nat.exists_eq_succ_of_ne_zero (Nat.ne_zero_of_lt h)
    rw [List.nil_append, List.append_nil,
      lineChars_closing (Nat.le_trans (Nat.le_max_left k best) hrun) hrest]
  | cons c cs ih =>
    rw [List.forall_mem_cons] at hcs
    rw [List.length_cons] at h
    rw [longestRunFrom] at hrun
    split at hrun
    next hquote =>
      subst hquote
      have hmore := ih hcs.2 hrun (show cs.length + (k + 1) < fuel by omega)
      rw [List.replicate_succ', List.append_assoc, List.append_assoc] at hmore
      exact hmore
    next hquote =>
      have hk : k ≤ 2 :=
        Nat.le_trans (Nat.le_max_left k best)
          (Nat.le_trans (le_longestRunFrom '\'' 0 (max k best) cs).2 hrun)
      obtain ⟨next, hnext⟩ : ∃ next, fuel - min k 1 = next + 1 := ⟨fuel - min k 1 - 1, by omega⟩
      have htail := ih hcs.2 hrun (show cs.length + 0 < next by omega)
      rw [List.replicate_zero, List.nil_append, List.nil_append] at htail
      rw [lineChars_inside hk (by simpa using hquote) (by omega), hnext, List.cons_append,
        lineChars_char hquote (fun h => absurd h.2 (by decide)) hcs.1, htail]
      rfl

/-! ## The four ways -/

theorem isText_of_control {cs : List Char} (h : (Traits.ofChars cs).control = false) :
    ∀ c ∈ cs, isText c = true ∨ c = '\n' := by
  intro c hc
  have hcontrol : isControl c = false := by
    simpa using List.any_eq_false.mp h c hc
  by_cases hfeed : c = '\n'
  · exact .inr hfeed
  · exact .inl (isText_of_not_isControl hcontrol hfeed)

theorem isText_of_allowsLiteral {cs : List Char} (h : (Traits.ofChars cs).allowsLiteral = true) :
    ∀ c ∈ cs, isText c = true ∧ c ≠ '\'' := by
  unfold Traits.allowsLiteral at h
  simp only [Bool.and_eq_true, Bool.not_eq_true', beq_iff_eq] at h
  obtain ⟨⟨hcontrol, hquotes⟩, hfeed⟩ := h
  intro c hc
  have hne : c ≠ '\n' := by
    rintro rfl
    have hfeed : cs.contains '\n' = false := hfeed
    rw [List.contains_eq_mem, decide_eq_false_iff_not] at hfeed
    exact hfeed hc
  refine ⟨(isText_of_control hcontrol c hc).resolve_right hne, ?_⟩
  rintro rfl
  exact not_mem_of_longestRun hquotes hc

theorem allowsLiteral_of_quoting {t : Traits} (h : t.quoting = .literal) :
    t.allowsLiteral = true := by
  unfold Traits.quoting at h
  by_cases hbasic : t.allowsBasic = true
  · simp [hbasic] at h
  · by_cases hliteral : t.allowsLiteral = true
    · exact hliteral
    · rw [if_neg hbasic, if_neg hliteral] at h
      split at h
      · cases h
      · split at h
        · cases h
        · split at h <;> cases h

theorem plain_of_quoting {t : Traits} (h : t.quoting = .literalLines) :
    t.control = false ∧ t.singleQuotes ≤ 2 := by
  unfold Traits.quoting at h
  split at h
  · cases h
  · split at h
    · cases h
    · split at h
      · cases h
      · split at h
        next hplain => simpa using hplain
        next => split at h <;> cases h

theorem keyQuoting_cases (t : Traits) :
    t.keyQuoting = .basic ∨ t.keyQuoting = .literal ∧ t.allowsLiteral = true := by
  unfold Traits.keyQuoting
  split
  · exact .inl rfl
  · split
    next hliteral => exact .inr ⟨rfl, hliteral⟩
    next => exact .inl rfl

theorem singleLine_escapeFrom (cs rest : List Char) :
    singleLine '"' (escapeFrom false 0 cs ++ '"' :: rest) = some (cs, rest) := by
  have hlength := length_le_escapeFrom false 0 cs
  refine basicChars_escapeFrom cs rest 0 _ ?_
  rw [List.length_append]
  omega

theorem singleLine_literal {cs : List Char} (h : (Traits.ofChars cs).allowsLiteral = true)
    (rest : List Char) : singleLine '\'' (cs ++ '\'' :: rest) = some (cs, rest) :=
  literalChars_append (isText_of_allowsLiteral h) rest

/-- A line end is written before a string that has lines, and before no other. -/
theorem lines_start {q : Char} {cs text : List Char}
    (htext : cs.contains '\n' = false → afterNewline? text = none) :
    lines q ((if cs.contains '\n' then ['\n'] else []) ++ text) =
      lineChars q (text.length + 1) text := by
  unfold lines
  cases hfeed : cs.contains '\n' with
  | true => rfl
  | false => simp [htext hfeed]

theorem lines_escapeFrom {cs rest : List Char} (hrest : rest.head? ≠ some '"') :
    lines '"' ((if cs.contains '\n' then ['\n'] else []) ++
      (escapeFrom true 0 cs ++ '"' :: '"' :: '"' :: rest)) = some (cs, rest) := by
  have hlength := length_le_escapeFrom true 0 cs
  rw [lines_start]
  · refine lineChars_escapeFrom hrest cs (Nat.zero_le 2) ?_
    rw [List.length_append]
    omega
  · intro hfeed
    cases cs with
    | nil => exact afterNewline?_eq_none (by decide) (by decide) _
    | cons c cs =>
      by_cases hquote : c = '"'
      · subst hquote
        exact afterNewline?_eq_none (by decide) (by decide) _
      · rw [escapeFrom_cons_of_ne hquote]
        rcases escapeChar_cases true c with ⟨ds, hds, -⟩ | ⟨hds, -, htext⟩
        · rw [hds]
          exact afterNewline?_eq_none (by decide) (by decide) _
        · rw [hds]
          have hne : c ≠ '\n' := by
            rintro rfl
            simp at hfeed
          refine afterNewline?_eq_none hne ?_ _
          rintro rfl
          rcases htext with htext | ⟨-, htext⟩ <;> exact absurd htext (by decide)

theorem lines_plain {cs rest : List Char} (hrest : rest.head? ≠ some '\'')
    (hcontrol : (Traits.ofChars cs).control = false) (hquotes : longestRun '\'' cs ≤ 2) :
    lines '\'' ((if cs.contains '\n' then ['\n'] else []) ++
      (cs ++ '\'' :: '\'' :: '\'' :: rest)) = some (cs, rest) := by
  rw [lines_start]
  · refine lineChars_plain hrest (isText_of_control hcontrol) hquotes ?_
    rw [List.length_append]
    omega
  · intro hfeed
    cases cs with
    | nil => exact afterNewline?_eq_none (by decide) (by decide) _
    | cons c cs =>
      have htext := isText_of_control hcontrol c List.mem_cons_self
      have hne : c ≠ '\n' := by
        rintro rfl
        simp at hfeed
      refine afterNewline?_eq_none hne ?_ _
      rintro rfl
      rcases htext with htext | htext <;> exact absurd htext (by decide)

namespace Lexical

/-- A single quotation mark opens a string on one line. -/
theorem string_single {q : Char} (hq : q = '"' ∨ q = '\'') {cs : List Char}
    (h : ∀ tail, cs ≠ q :: q :: tail) :
    string (q :: cs) = (singleLine q cs).map fun r => (String.ofList r.1, r.2) := by
  unfold string
  rcases hq with rfl | rfl
  · split
    next heq => exact absurd (List.cons.inj heq).2 (h _)
    next heq => exact absurd (List.cons.inj heq).1 (by decide)
    next heq => rw [(List.cons.inj heq).2]
    next heq => exact absurd (List.cons.inj heq).1 (by decide)
    next hother _ => exact absurd rfl (hother cs)
  · split
    next heq => exact absurd (List.cons.inj heq).1 (by decide)
    next heq => exact absurd (List.cons.inj heq).2 (h _)
    next heq => exact absurd (List.cons.inj heq).1 (by decide)
    next heq => rw [(List.cons.inj heq).2]
    next hother => exact absurd rfl (hother cs)

/-- What is written between two quotation marks does not look like the end of an empty string
of several lines. -/
theorem escapeFrom_append_ne {cs rest : List Char} (hrest : rest.head? ≠ some '"')
    (tail : List Char) : escapeFrom false 0 cs ++ '"' :: rest ≠ '"' :: '"' :: tail := by
  intro heq
  cases cs with
  | nil =>
    obtain rfl := (List.cons.inj heq).2
    exact hrest rfl
  | cons c cs =>
    by_cases hquote : c = '"'
    · subst hquote
      rw [escapeFrom_false_quote] at heq
      exact absurd (List.cons.inj heq).1 (by decide)
    · rw [escapeFrom_cons_of_ne hquote] at heq
      rcases escapeChar_cases false c with ⟨ds, hds, -⟩ | ⟨hds, -⟩
      · rw [hds] at heq
        exact absurd (List.cons.inj heq).1 (by decide)
      · rw [hds] at heq
        exact absurd (List.cons.inj heq).1 hquote

theorem append_ne_of_allowsLiteral {cs rest : List Char}
    (hcs : (Traits.ofChars cs).allowsLiteral = true) (hrest : rest.head? ≠ some '\'')
    (tail : List Char) : cs ++ '\'' :: rest ≠ '\'' :: '\'' :: tail := by
  intro heq
  cases cs with
  | nil =>
    obtain rfl := (List.cons.inj heq).2
    exact hrest rfl
  | cons c cs =>
    exact (isText_of_allowsLiteral hcs c List.mem_cons_self).2 (List.cons.inj heq).1

/-- **A quoted string is read as itself**, if no further quotation mark follows. -/
theorem string_quote (s : String) {rest : List Char} (hdouble : rest.head? ≠ some '"')
    (hsingle : rest.head? ≠ some '\'') : string (quote s ++ rest) = some (s, rest) := by
  unfold quote quoteAs
  generalize hcs : s.toList = cs
  have hs : String.ofList cs = s := by rw [← hcs, String.ofList_toList]
  cases hquoting : (Traits.ofChars cs).quoting with
  | basic =>
    simp only [List.cons_append, List.append_assoc, List.nil_append]
    rw [string_single (.inl rfl) (escapeFrom_append_ne hdouble), singleLine_escapeFrom,
      Option.map_some, hs]
  | literal =>
    have hliteral := allowsLiteral_of_quoting hquoting
    simp only [List.cons_append, List.append_assoc, List.nil_append]
    rw [string_single (.inr rfl) (append_ne_of_allowsLiteral hliteral hsingle),
      singleLine_literal hliteral, Option.map_some, hs]
  | basicLines =>
    simp only [List.cons_append, List.append_assoc, List.nil_append]
    show (lines '"' _).map (fun r => (String.ofList r.1, r.2)) = _
    rw [lines_escapeFrom hdouble, Option.map_some, hs]
  | literalLines =>
    obtain ⟨hcontrol, hquotes⟩ := plain_of_quoting hquoting
    simp only [List.cons_append, List.append_assoc, List.nil_append]
    show (lines '\'' _).map (fun r => (String.ofList r.1, r.2)) = _
    rw [lines_plain hsingle hcontrol hquotes, Option.map_some, hs]

/-! ## Keys -/

theorem keyPart_bare {cs rest : List Char} (hne : cs ≠ [])
    (hcs : ∀ c ∈ cs, Toml.isBareKeyChar c = true)
    (hrest : ∀ c ∈ rest.head?, Toml.isBareKeyChar c = false) :
    keyPart (cs ++ rest) = some (String.ofList cs, rest) := by
  obtain ⟨c, cs, rfl⟩ := List.exists_cons_of_ne_nil hne
  have hc := hcs c List.mem_cons_self
  have hrun : Text.Reader.some1 Lexical.isBareKeyChar (c :: cs ++ rest) =
      some (c :: cs, rest) := Text.Reader.some1_append hne hcs hrest
  -- A quotation mark is no character of a bare key.
  unfold keyPart
  split
  next heq =>
    rw [(List.cons.inj heq).1] at hc
    exact absurd hc (by decide)
  next heq =>
    rw [(List.cons.inj heq).1] at hc
    exact absurd hc (by decide)
  next => rw [hrun, Option.map_some]

/-- **A key is read as itself**, if nothing follows that could belong to it. -/
theorem keyPart_quoteKey (key : String) {rest : List Char}
    (hrest : ∀ c ∈ rest.head?, Toml.isBareKeyChar c = false) :
    keyPart (quoteKey key ++ rest) = some (key, rest) := by
  unfold quoteKey
  dsimp only
  generalize hcs : key.toList = cs
  have hkey : String.ofList cs = key := by rw [← hcs, String.ofList_toList]
  split
  next hbare =>
    obtain ⟨hne, hall⟩ : cs ≠ [] ∧ ∀ c ∈ cs, Toml.isBareKeyChar c = true := by simpa using hbare
    rw [keyPart_bare hne hall hrest, hkey]
  next =>
    unfold quoteAs
    rcases keyQuoting_cases (Traits.ofChars cs) with hquoting | ⟨hquoting, hliteral⟩
    · simp only [hquoting, List.cons_append, List.append_assoc, List.nil_append]
      show (singleLine '"' _).map (fun r => (String.ofList r.1, r.2)) = _
      rw [singleLine_escapeFrom, Option.map_some, hkey]
    · simp only [hquoting, List.cons_append, List.append_assoc, List.nil_append]
      show (singleLine '\'' _).map (fun r => (String.ofList r.1, r.2)) = _
      rw [singleLine_literal hliteral, Option.map_some, hkey]

end Lexical

end Abacus.Toml
