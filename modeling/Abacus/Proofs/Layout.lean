import Mathlib.Data.List.TakeWhile
import Abacus.Proofs.SaveSlots
import Abacus.Proofs.SavingLines

/-!
# Layout does not matter

Blanks separate tokens and have no meaning of their own.  This module says what they do to the
tokens of a text.

* A blank ends every token, whatever comes after it, so the tokens around a run of blanks are those
  of the text before it and of the text behind it (`tokensFrom_append`).
* Where a text starts shows only in the positions of its tokens, and of the fault if it has one
  (`tokensFrom_shift`).

Which statement the tokens spell depends on their kinds and texts and not on their places
(`Statement.toOption_parse_congr`).  So a line is the same statement as the line without the blanks
at its ends (`Calculator.statement?_trim`).
-/

namespace Abacus

/-! ## Blanks are in no token -/

namespace Text

/-- The text is empty, or it starts with a blank. -/
def StartsBlank (cs : List Char) : Prop := ∀ c ∈ cs.head?, isBlank c = true

theorem toNat_of_isBlank {c : Char} (h : isBlank c = true) : c.toNat ≤ 0x20 ∨ 0x85 ≤ c.toNat := by
  simp only [isBlank, blankRanges, List.any_cons, List.any_nil, Bool.or_false, Bool.or_eq_true,
    Bool.and_eq_true, decide_eq_true_eq] at h
  omega

/-- A run of characters among which there are no blanks ends before the blanks. -/
theorem takeWhile_append_of_startsBlank {p : Char → Bool} (hp : ∀ c, isBlank c = true → p c = false)
    (cs : List Char) {tail : List Char} (htail : StartsBlank tail) :
    (cs ++ tail).takeWhile p = cs.takeWhile p := by
  induction cs with
  | nil =>
    cases tail with
    | nil => rfl
    | cons c tail => simp [hp c (htail c rfl)]
  | cons c cs ih => rw [List.cons_append, List.takeWhile_cons, List.takeWhile_cons, ih]

end Text

namespace Token

open Text (isBlank byteSize StartsBlank toNat_of_isBlank takeWhile_append_of_startsBlank)

theorem toNat_of_isNumberChar {c : Char} (h : isNumberChar c = true) :
    0x2E ≤ c.toNat ∧ c.toNat ≤ 0x7A := by
  unfold isNumberChar isWordChar Char.isAlphanum Char.isAlpha Char.isUpper Char.isLower
    Char.isDigit at h
  simp only [Bool.or_eq_true, Bool.and_eq_true, decide_eq_true_eq, beq_iff_eq, ge_iff_le,
    UInt32.le_iff_toNat_le] at h
  change (((0x41 ≤ c.toNat ∧ c.toNat ≤ 0x5A ∨ 0x61 ≤ c.toNat ∧ c.toNat ≤ 0x7A) ∨
    0x30 ≤ c.toNat ∧ c.toNat ≤ 0x39) ∨ c = '_') ∨ c = '.' at h
  rcases h with (h | rfl) | rfl
  · omega
  · decide
  · decide

theorem isNumberChar_of_isBlank {c : Char} (h : isBlank c = true) : isNumberChar c = false := by
  rw [Bool.eq_false_iff]
  intro hnumber
  have hrange := toNat_of_isNumberChar hnumber
  have hblank := toNat_of_isBlank h
  omega

theorem isWordChar_of_isBlank {c : Char} (h : isBlank c = true) : isWordChar c = false :=
  (Bool.or_eq_false_iff.mp (isNumberChar_of_isBlank h)).1

theorem isDigit_of_isBlank {c : Char} (h : isBlank c = true) : c.isDigit = false := by
  have hword := isWordChar_of_isBlank h
  rw [isWordChar, Char.isAlphanum, Bool.or_eq_false_iff, Bool.or_eq_false_iff] at hword
  exact hword.1.2

theorem startsNumber_append (c : Char) (cs : List Char) {tail : List Char}
    (htail : StartsBlank tail) : startsNumber c (cs ++ tail) = startsNumber c cs := by
  cases cs with
  | cons d cs => rfl
  | nil =>
    cases tail with
    | nil => rfl
    | cons d tail => simp [startsNumber, isDigit_of_isBlank (htail d rfl)]

/-- Of the text after it, a symbol takes at most one character. -/
theorem symbol?_cons (c d : Char) (cs ds : List Char) :
    symbol? c (d :: cs) = symbol? c (d :: ds) := by
  unfold symbol?
  split <;> simp_all

/-- Only four characters can be the second one of a symbol. -/
theorem symbol?_cons_of_notMem (c : Char) {d : Char} (hd : d ∉ ['*', '/', '<', '>'])
    (cs : List Char) : symbol? c (d :: cs) = symbol? c [] := by
  simp only [List.mem_cons, List.not_mem_nil, or_false, not_or] at hd
  unfold symbol?
  split <;> simp_all

theorem symbol?_append (c : Char) (cs : List Char) {tail : List Char} (htail : StartsBlank tail) :
    symbol? c (cs ++ tail) = symbol? c cs := by
  cases cs with
  | cons d cs => exact symbol?_cons c d _ _
  | nil =>
    cases tail with
    | nil => rfl
    | cons d tail =>
      refine symbol?_cons_of_notMem c (fun hd => ?_) tail
      have hsymbols : ['*', '/', '<', '>'].all (fun e => !isBlank e) = true := by decide
      simpa [htail d rfl] using List.all_eq_true.mp hsymbols d hd

/-- A blank ends a token, whatever comes after it. -/
theorem lexeme_append (pos : Nat) (c : Char) (cs : List Char) {tail : List Char}
    (htail : StartsBlank tail) : lexeme pos c (cs ++ tail) = lexeme pos c cs := by
  unfold lexeme
  rw [startsNumber_append c cs htail, symbol?_append c cs htail,
    takeWhile_append_of_startsBlank (fun _ => isNumberChar_of_isBlank) cs htail,
    takeWhile_append_of_startsBlank (fun _ => isWordChar_of_isBlank) cs htail]

/-- A token lies within the text. -/
theorem le_length_of_lexeme {pos : Nat} {c : Char} {cs : List Char} {kind : Kind} {more : Nat}
    (h : lexeme pos c cs = .ok (kind, more)) : more ≤ cs.length := by
  simp only [lexeme] at h
  split at h
  next =>
    split at h <;> cases h
    exact (List.takeWhile_sublist _).length_le
  next =>
    split at h
    next =>
      cases h
      exact (List.takeWhile_sublist _).length_le
    next =>
      split at h
      next found hfound =>
        obtain rfl := Except.ok.inj h
        unfold symbol? at hfound
        split at hfound <;> cases hfound <;> simp
      next => cases h

/-! ## The seam -/

/-- Blanks at the start only move what follows. -/
theorem tokensFrom_blanks_append {w : List Char} (hw : ∀ c ∈ w, isBlank c = true) (pos : Nat)
    (cs : List Char) : tokensFrom pos (w ++ cs) = tokensFrom (pos + byteSize w) cs := by
  induction w generalizing pos with
  | nil => rfl
  | cons c w ih =>
    obtain ⟨hc, hw⟩ := List.forall_mem_cons.mp hw
    rw [List.cons_append, tokensFrom, if_pos hc, ih hw, Text.byteSize_cons, Nat.add_assoc]

theorem startsBlank_append {w : List Char} (hne : w ≠ []) (hw : ∀ c ∈ w, isBlank c = true)
    (cs : List Char) : StartsBlank (w ++ cs) := by
  obtain ⟨c, w, rfl⟩ := List.exists_cons_of_ne_nil hne
  intro d hd
  obtain rfl : c = d := Option.some.inj hd
  exact hw c List.mem_cons_self

/-- **Around blanks, a text falls apart.**  The tokens of two texts with blanks between them are
those of the first one without its end, and then those of the second one where it stands now.  The
first fault counts. -/
theorem tokensFrom_append {w : List Char} (hne : w ≠ []) (hw : ∀ c ∈ w, isBlank c = true)
    (pos : Nat) (a b : List Char) :
    tokensFrom pos (a ++ (w ++ b)) = (tokensFrom pos a).bind fun ts =>
      (tokensFrom (pos + byteSize (a ++ w)) b).map fun us => ts.dropLast ++ us := by
  have htail : StartsBlank (w ++ b) := startsBlank_append hne hw b
  fun_induction tokensFrom pos a with
  | case1 pos =>
    rw [List.nil_append, tokensFrom_blanks_append hw]
    show _ = (tokensFrom (pos + byteSize w) b).map fun us => us
    cases tokensFrom (pos + byteSize w) b <;> rfl
  | case2 pos c cs hc ih =>
    rw [List.cons_append, tokensFrom, if_pos hc, ih, List.cons_append, Text.byteSize_cons,
      Nat.add_assoc]
  | case3 pos c cs hc e hlexeme =>
    rw [List.cons_append, tokensFrom, if_neg hc, lexeme_append pos c cs htail, hlexeme]
    rfl
  | case4 pos c cs hc kind more hlexeme piece e hrest ih =>
    have hmore := le_length_of_lexeme hlexeme
    rw [hrest] at ih
    rw [List.cons_append, tokensFrom, if_neg hc, lexeme_append pos c cs htail, hlexeme]
    simp only [List.take_append_of_le_length hmore, List.drop_append_of_le_length hmore]
    rw [ih]
    rfl
  | case5 pos c cs hc kind more hlexeme piece rest hrest ih =>
    have hmore := le_length_of_lexeme hlexeme
    have hplace : pos + byteSize piece + byteSize (cs.drop more ++ w) =
        pos + byteSize (c :: cs ++ w) := by
      have hsplit : piece ++ cs.drop more = c :: cs := by
        rw [List.cons_append, List.take_append_drop]
      rw [← hsplit, List.append_assoc, Text.byteSize_append piece, Nat.add_assoc]
    have hrestne : rest ≠ [] := by
      obtain ⟨us, stop, rfl, -⟩ := tokensFrom_eq_ok hrest
      exact List.append_ne_nil_of_right_ne_nil us (List.cons_ne_nil _ _)
    rw [hrest, hplace] at ih
    rw [List.cons_append, tokensFrom, if_neg hc, lexeme_append pos c cs htail, hlexeme]
    simp only [List.take_append_of_le_length hmore, List.drop_append_of_le_length hmore]
    rw [ih]
    show _ = (tokensFrom (pos + byteSize (c :: cs ++ w)) b).map _
    rw [List.dropLast_cons_of_ne_nil hrestne]
    cases tokensFrom (pos + byteSize (c :: cs ++ w)) b <;> rfl

end Token

/-! ## Places -/

/-- The same token, so many bytes further on. -/
def Token.shift (n : Nat) (t : Token) : Token := { t with pos := t.pos + n }

/-- The same fault, so many bytes further on. -/
def SyntaxError.shift (n : Nat) : SyntaxError → SyntaxError
  | .empty => .empty
  | .unexpectedChar char pos => .unexpectedChar char (pos + n)
  | .invalidNumber text pos => .invalidNumber text (pos + n)
  | .unexpected found expected pos => .unexpected found expected (pos + n)
  | .unknownFormat name pos => .unknownFormat name (pos + n)

namespace Token

open Text (isBlank byteSize)

theorem lexeme_shift (n pos : Nat) (c : Char) (cs : List Char) :
    lexeme (pos + n) c cs = (lexeme pos c cs).mapError (SyntaxError.shift n) := by
  simp only [lexeme]
  split
  next => split <;> rfl
  next =>
    split
    next => rfl
    next => split <;> rfl

/-- **The place of a text shows in positions only.** -/
theorem tokensFrom_shift (n pos : Nat) (text : List Char) :
    tokensFrom (pos + n) text =
      ((tokensFrom pos text).map (List.map (shift n))).mapError (SyntaxError.shift n) := by
  fun_induction tokensFrom pos text with
  | case1 pos =>
    rw [tokensFrom]
    rfl
  | case2 pos c cs hc ih => rw [tokensFrom, if_pos hc, Nat.add_right_comm, ih]
  | case3 pos c cs hc e hlexeme =>
    rw [tokensFrom, if_neg hc, lexeme_shift, hlexeme]
    rfl
  | case4 pos c cs hc kind more hlexeme piece e hrest ih =>
    rw [hrest, Nat.add_right_comm] at ih
    rw [tokensFrom, if_neg hc, lexeme_shift, hlexeme]
    simp only [Except.mapError]
    rw [ih]
    rfl
  | case5 pos c cs hc kind more hlexeme piece rest hrest ih =>
    rw [hrest, Nat.add_right_comm] at ih
    rw [tokensFrom, if_neg hc, lexeme_shift, hlexeme]
    simp only [Except.mapError]
    rw [ih]
    rfl

/-- The kind and the text of a token. -/
def spelling (t : Token) : Kind × String := (t.kind, t.text)

/-- The kinds and texts of the tokens of a text, if it has tokens. -/
def spellings? (text : List Char) : Option (List (Kind × String)) :=
  (tokensFrom 0 text).toOption.map (List.map spelling)

theorem map_spelling_tokensFrom (pos : Nat) (text : List Char) :
    (tokensFrom pos text).toOption.map (List.map spelling) = spellings? text := by
  have hshift := tokensFrom_shift pos 0 text
  rw [Nat.zero_add] at hshift
  rw [hshift, spellings?]
  cases tokensFrom 0 text with
  | error e => rfl
  | ok ts =>
    show some ((ts.map (shift pos)).map spelling) = some (ts.map spelling)
    rw [List.map_map]
    rfl

theorem spellings?_blanks_append {w : List Char} (hw : ∀ c ∈ w, isBlank c = true)
    (cs : List Char) : spellings? (w ++ cs) = spellings? cs := by
  rw [spellings?, tokensFrom_blanks_append hw, map_spelling_tokensFrom]

theorem spellings?_append_blanks {w : List Char} (hw : ∀ c ∈ w, isBlank c = true)
    (cs : List Char) : spellings? (cs ++ w) = spellings? cs := by
  rcases eq_or_ne w [] with rfl | hne
  · rw [List.append_nil]
  have hseam := tokensFrom_append hne hw 0 cs []
  rw [List.append_nil] at hseam
  rw [spellings?, spellings?, hseam]
  cases hts : tokensFrom 0 cs with
  | error e => rfl
  | ok ts =>
    obtain ⟨us, stop, rfl, -⟩ := tokensFrom_eq_ok hts
    rw [tokensFrom]
    simp [Except.bind, Except.map, Except.toOption, spelling]

end Token

/-! ## Statements -/

namespace Grammar

open Token (spelling)

theorem map_sense_congr {ts us : List Token} (h : us.map spelling = ts.map spelling) :
    us.map sense = ts.map sense := by
  have hsense : sense = (fun x => (x.1, (Literal.read? x.2).getD (.int 0),
      if x.1 = .number then "" else x.2)) ∘ spelling := rfl
  rw [hsense, ← List.map_map, h, List.map_map]

theorem readable_iff {ts : List Token} :
    Readable ts ↔ ∀ x ∈ ts.map spelling, x.1 = .number → (Literal.read? x.2).isSome := by
  simp only [Readable, List.forall_mem_map, spelling]

theorem readable_congr {ts us : List Token} (h : us.map spelling = ts.map spelling)
    (hts : Readable ts) : Readable us := by
  rw [readable_iff, h]
  exact readable_iff.mp hts

end Grammar

namespace Statement

open Token (spelling)

theorem map_spelling_body (ts : List Token) :
    (body ts).map spelling = (ts.map spelling).takeWhile fun x => x.1 ≠ .ending := by
  rw [List.takeWhile_map]
  rfl

/-- What a parser reads depends on the kinds and the texts of the tokens alone. -/
theorem parse_congr {ts us : List Token} (h : us.map spelling = ts.map spelling) {s : Statement}
    (hs : parse ts = .ok s) : parse us = .ok s := by
  obtain ⟨hread, hspells⟩ := spells_of_parseBody hs
  have hbody : (body us).map spelling = (body ts).map spelling := by
    rw [map_spelling_body, map_spelling_body, h]
  exact parseBody_of_spells (Grammar.readable_congr hbody hread)
    (hspells.congr (Grammar.map_sense_congr hbody))

theorem toOption_parse_congr {ts us : List Token} (h : us.map spelling = ts.map spelling) :
    (parse us).toOption = (parse ts).toOption :=
  Option.ext fun s => by
    rw [toOption_eq_some_iff, toOption_eq_some_iff]
    exact ⟨parse_congr h.symm, parse_congr h⟩

end Statement

/-! ## Lines -/

/-- The sessions are in the same state.  They may remember different lines, and show different
things of the last one. -/
structure Session.SameState {σ η : Type} (s t : Session σ η) : Prop where
  environment : s.environment = t.environment
  bindings : s.record.bindings = t.record.bindings
  hook : s.hook = t.hook

theorem Session.SameState.refl {σ η : Type} (s : Session σ η) : s.SameState s := ⟨rfl, rfl, rfl⟩

namespace Text

/-- A text is its trimmed form with blanks around it. -/
theorem exists_trim_eq (s : String) :
    ∃ before after, (∀ c ∈ before, isBlank c = true) ∧ (∀ c ∈ after, isBlank c = true) ∧
      s.toList = before ++ ((trim s).toList ++ after) := by
  refine ⟨s.toList.takeWhile isBlank, ((dropBlanks s.toList).reverse.takeWhile isBlank).reverse,
    fun c hc => List.mem_takeWhile_imp hc,
    fun c hc => List.mem_takeWhile_imp (List.mem_reverse.mp hc), ?_⟩
  rw [trim, String.toList_ofList, dropTrailingBlanks, ← List.reverse_append]
  have hsplit : (dropBlanks s.toList).reverse.takeWhile isBlank ++
      dropBlanks (dropBlanks s.toList).reverse = (dropBlanks s.toList).reverse :=
    List.takeWhile_append_dropWhile
  rw [hsplit, List.reverse_reverse]
  exact List.takeWhile_append_dropWhile.symm

/-- A text is blank if nothing is left of it. -/
theorem isBlankText_iff {line : String} :
    isBlankText line = true ↔ (trim line).toList.head? = none := by
  rw [List.head?_eq_none_iff]
  constructor
  · intro h
    rw [trim, (dropBlanks_eq_nil_iff _).mpr h]
    rfl
  · intro h
    obtain ⟨before, after, hbefore, hafter, hline⟩ := exists_trim_eq line
    rw [isBlankText, hline, h, List.nil_append, List.all_append, Bool.and_eq_true,
      List.all_eq_true, List.all_eq_true]
    exact ⟨hbefore, hafter⟩

end Text

namespace Calculator

/-- What statement a line is depends on the kinds and the texts of its tokens alone. -/
theorem statement?_congr {line line' : String}
    (h : Token.spellings? line.toList = Token.spellings? line'.toList) :
    statement? line = statement? line' := by
  unfold statement? Token.tokenize
  unfold Token.spellings? at h
  cases hts : Token.tokensFrom 0 line.toList with
  | error e =>
    cases hus : Token.tokensFrom 0 line'.toList with
    | error e' => rfl
    | ok us => simp [hts, hus, Except.toOption] at h
  | ok ts =>
    cases hus : Token.tokensFrom 0 line'.toList with
    | error e' => simp [hts, hus, Except.toOption] at h
    | ok us =>
      rw [hts, hus] at h
      exact Statement.toOption_parse_congr (Option.some.inj h)

/-- **Blanks at the ends of a line mean nothing.** -/
theorem statement?_trim (line : String) : statement? (Text.trim line) = statement? line := by
  obtain ⟨before, after, hbefore, hafter, hline⟩ := Text.exists_trim_eq line
  refine statement?_congr ?_
  rw [hline, Token.spellings?_blanks_append hbefore, Token.spellings?_append_blanks hafter]

variable {η : Type}

/-- A line that is no statement is refused. -/
theorem exec_of_statement?_eq_none {line : String} (h : statement? line = none)
    (s : Calculator η) :
    ∃ message, s.exec line true =
      { session := { s with record := s.record.fail message }, ok := false, saved := none } := by
  rcases parse_cases line with ⟨-, message, hparse⟩ | ⟨ts, st, hsome, -⟩
  · refine ⟨message, ?_⟩
    rw [exec, Session.exec, hparse]
  · rw [h] at hsome
    cases hsome

theorem exists_statement?_of_ok {s : Calculator η} {line : String}
    (h : (s.exec line true).ok = true) : ∃ st, statement? line = some st := by
  rw [← Option.isSome_iff_exists, Option.isSome_iff_ne_none]
  intro hnone
  obtain ⟨message, hexec⟩ := exec_of_statement?_eq_none hnone s
  rw [hexec] at h
  cases h

/-- A statement that fails leaves its message and nothing else. -/
theorem exec_of_error {line : String} {st : Statement} (h : statement? line = some st)
    {s : Calculator η} {e : RunError} (happly : s.environment.apply st = .error e) :
    s.exec line true =
      { session := { s with record := s.record.fail e.message }, ok := false, saved := none } := by
  obtain ⟨ts, hparse, -, hs⟩ := exists_tokens h
  rw [exec, Session.exec, hparse]
  simp only [engine, Environment.execute_of_parse hs, happly, Except.mapError]

/-- What becomes of a session by a statement that succeeds and is kept. -/
theorem exec_eq_of_apply {line : String} {ts : List Token} {st : Statement}
    (hparse : frontend.parse line = .ok ts) (hs : Statement.parse ts = .ok st)
    {s : Calculator η} {after : Environment} {result : String}
    (happly : s.environment.apply st = .ok (after, result)) :
    s.exec line true =
      { session :=
          { s with
            environment := after
            record := (s.record.succeed result).commit (Session.clears frontend ts)
              ⟨line, result⟩ (after.bindings.map Number.text) }
        ok := true
        saved :=
          if Session.saves frontend ts then s.hook.map fun h => (h, Snapshot.write after)
          else none } := by
  rw [exec, Session.exec, hparse]
  simp only [engine, Environment.execute_of_parse hs, happly, Except.mapError]
  rfl

/-- A statement that succeeds leaves what it makes of the environment, and its result. -/
theorem exec_of_ok {line : String} {st : Statement} (h : statement? line = some st)
    {s : Calculator η} {after : Environment} {result : String}
    (happly : s.environment.apply st = .ok (after, result)) :
    let outcome := s.exec line true
    outcome.ok = true ∧ outcome.session.environment = after ∧
      outcome.session.record.lastResult = result ∧
      outcome.session.record.bindings = after.bindings.map Number.text ∧
      outcome.session.hook = s.hook := by
  obtain ⟨ts, hparse, -, hs⟩ := exists_tokens h
  rw [exec_eq_of_apply hparse hs happly]
  exact ⟨rfl, rfl, rfl, rfl, rfl⟩

/-- **A line acts through the statement it is.**  Two lines that are the same statement, run on
sessions in the same state, do the same and have the same result. -/
theorem exec_congr {s t : Calculator η} (h : s.SameState t) {line line' : String}
    (hline : statement? line = statement? line') :
    let one := s.exec line true
    let other := t.exec line' true
    one.session.SameState other.session ∧ one.ok = other.ok ∧ one.saved = other.saved ∧
      (one.ok = true → one.session.record.lastResult = other.session.record.lastResult) := by
  intro one other
  -- Without the hooks first: what is due follows from the state that the line leaves.
  suffices hdone : one.session.SameState other.session ∧ one.ok = other.ok ∧
      (one.ok = true → one.session.record.lastResult = other.session.record.lastResult) by
    refine ⟨hdone.1, hdone.2.1, ?_, hdone.2.2⟩
    have hsave : isSave line = isSave line' := by rw [isSave, isSave, hline]
    simp only [one, other, saved_exec]
    rw [hsave, h.hook, hdone.1.environment]
  cases hst : statement? line with
  | none =>
    obtain ⟨message, hone⟩ := exec_of_statement?_eq_none hst s
    obtain ⟨message', hother⟩ := exec_of_statement?_eq_none (hline ▸ hst) t
    simp only [one, other, hone, hother]
    exact ⟨⟨h.environment, h.bindings, h.hook⟩, trivial, fun h => absurd h Bool.false_ne_true⟩
  | some st =>
    cases happly : s.environment.apply st with
    | error e =>
      have hone := exec_of_error hst happly
      have hother := exec_of_error (hline ▸ hst) (h.environment ▸ happly)
      simp only [one, other, hone, hother]
      exact ⟨⟨h.environment, h.bindings, h.hook⟩, trivial, fun h => absurd h Bool.false_ne_true⟩
    | ok x =>
      obtain ⟨after, result⟩ := x
      obtain ⟨hok, henv, hresult, hbindings, hhook⟩ := exec_of_ok hst happly
      obtain ⟨hok', henv', hresult', hbindings', hhook'⟩ :=
        exec_of_ok (hline ▸ hst) (h.environment ▸ happly)
      refine ⟨⟨henv.trans henv'.symm, hbindings.trans hbindings'.symm, ?_⟩,
        hok.trans hok'.symm, fun _ => hresult.trans hresult'.symm⟩
      exact hhook.trans (h.hook.trans hhook'.symm)

end Calculator

end Abacus
