import Abacus.Proofs.Layout
import Abacus.Proofs.Previews

/-!
# Texts with blanks between them

Two texts with blanks between them are read as each of them is read alone.  The second one stands
further on, and that shows in the positions of its tokens or of its fault, by as many bytes as there
are before it (`Token.tokenize_append`).  So blanks can be put in wherever a token ends, and taken
out where others are left, and nothing changes but positions.

## What runs does not see positions

A line is run if its tokens spell a statement, and which statement that is depends on their kinds
and texts.  Only what is said about a line that is no statement has a position in it.  So of two lines
with the same kinds and texts either both are statements, and then all is the same of them, or
neither is, and then all is the same but the complaint (`Calculator.event_congr`).
-/

namespace Abacus

namespace Token

/-- Apart from its end, a text has only tokens that are not of this kind. -/
theorem dropLast_eq_filter {pos : Nat} {text : List Char} {ts : List Token}
    (h : tokensFrom pos text = .ok ts) : ts.dropLast = ts.filter fun t => t.kind ≠ .ending := by
  obtain ⟨us, stop, rfl, hus⟩ := tokensFrom_eq_ok h
  have hkept : us.filter (fun t => t.kind ≠ .ending) = us :=
    List.filter_eq_self.mpr fun u hu => by simpa using hus u hu
  rw [List.dropLast_concat, List.filter_append, hkept]
  simp

/-- The tokens of a text that stands `n` bytes from the start. -/
theorem tokensFrom_tokenize (n : Nat) (text : String) :
    tokensFrom n text.toList =
      ((tokenize text).map (List.map (shift n))).mapError (SyntaxError.shift n) := by
  have hshift := tokensFrom_shift n 0 text.toList
  rwa [Nat.zero_add] at hshift

/-- **Reading commutes with putting blanks between.** -/
theorem tokenize_append {w : String} (hne : w ≠ "") (hw : Text.isBlankText w = true)
    (a b : String) :
    tokenize (a ++ w ++ b) = (tokenize a).bind fun ts =>
      ((tokenize b).map fun us =>
        (ts.filter fun t => t.kind ≠ .ending) ++ us.map (shift (Text.size (a ++ w)))).mapError
          (SyntaxError.shift (Text.size (a ++ w))) := by
  have hblank : ∀ c ∈ w.toList, Text.isBlank c = true := List.all_eq_true.mp hw
  have hnil : w.toList ≠ [] := fun h => hne (String.toList_eq_nil_iff.mp h)
  have hsize : 0 + Text.byteSize (a.toList ++ w.toList) = Text.size (a ++ w) := by
    rw [Nat.zero_add, Text.size, String.toList_append]
  have hseam := tokensFrom_append hnil hblank 0 a.toList b.toList
  rw [hsize, tokensFrom_tokenize (Text.size (a ++ w)) b] at hseam
  have hlist : (a ++ w ++ b).toList = a.toList ++ (w.toList ++ b.toList) := by
    rw [String.toList_append, String.toList_append, List.append_assoc]
  show tokensFrom 0 (a ++ w ++ b).toList = (tokensFrom 0 a.toList).bind _
  rw [hlist, hseam]
  cases hts : tokensFrom 0 a.toList with
  | error e => rfl
  | ok ts =>
    simp only [Except.bind, dropLast_eq_filter hts]
    cases tokenize b <;> rfl

end Token

namespace Calculator

open Token (spelling tokenize)

variable {η : Type}

/-- Of two lines that have the same kinds and texts, either both are statements, and the same thing
happens when they are run, or both are refused and nothing happens. -/
theorem event_congr {text text' : String} {ts us : List Token} (hts : tokenize text = .ok ts)
    (hus : tokenize text' = .ok us) (h : us.map spelling = ts.map spelling) (env : Environment)
    (persist : Bool) :
    let one := Session.Event.of frontend engine env text persist
    let other := Session.Event.of frontend engine env text' persist
    one.environment = other.environment ∧
      (((∃ st, Statement.parse ts = .ok st) ∧ one.result = other.result) ∨
        ((∃ e, Statement.parse ts = .error e) ∧
          ∃ message message', one.result = .error message ∧ other.result = .error message')) := by
  intro one other
  have hone : frontend.parse text = (parse text).mapError SyntaxError.message := rfl
  have hother : frontend.parse text' = (parse text').mapError SyntaxError.message := rfl
  simp only [one, other, Session.Event.of, hone, hother, parse, hts, hus]
  cases hst : Statement.parse ts with
  | ok st =>
    have hst' : Statement.parse us = .ok st := Statement.parse_congr h hst
    simp only [hst', Except.mapError, engine_execute, Environment.execute_of_parse hst,
      Environment.execute_of_parse hst']
    exact ⟨trivial, .inl ⟨⟨st, rfl⟩, trivial⟩⟩
  | error e =>
    cases hst' : Statement.parse us with
    | ok st => rw [Statement.parse_congr h.symm hst'] at hst; cases hst
    | error e' =>
      simp only [Except.mapError]
      exact ⟨trivial, .inr ⟨⟨e, rfl⟩, e.message, e'.message, rfl, rfl⟩⟩

/-- A line that fails does not touch the last result. -/
theorem lastResult_note_of_failed (r : Session.Record) {e : Session.Event Environment Token}
    {message : String} (h : e.result = .error message) :
    (r.note frontend engine e).lastResult = r.lastResult := by
  rw [Session.Record.note_of_error h, Session.Record.fail]

/-- **Layout does not matter.**  Let `w` be blanks, at least one.

* If `a` has a fault, so has `a`, `w`, `b` together, and it is the same one.
* If `a` has tokens and `b` has a fault, that is the fault of all, as many bytes further on as there
  are in `a` and `w`.
* If both have tokens, those of all are the tokens of `a` without its end, and then those of `b`, as
  many bytes further on.

Let two texts have tokens of the same kinds and texts, in the same order.

* Either both are parsed or neither is, and they are the same statement.
* Running one leads from the same session to the same outcome as running the other: whether it went
  well, the last result, the environment, and, if they are statements, the error. -/
theorem layout_never_matters :
    (∀ a w b : String, w ≠ "" → Text.isBlankText w = true →
      (∀ e, tokenize a = .error e → tokenize (a ++ w ++ b) = .error e) ∧
      (∀ ts e, tokenize a = .ok ts → tokenize b = .error e →
        tokenize (a ++ w ++ b) = .error (e.shift (Text.size (a ++ w)))) ∧
      ∀ ts us, tokenize a = .ok ts → tokenize b = .ok us →
        tokenize (a ++ w ++ b) =
          .ok ((ts.filter fun t => t.kind ≠ .ending) ++
            us.map (Token.shift (Text.size (a ++ w))))) ∧
    ∀ text text' ts us, tokenize text = .ok ts → tokenize text' = .ok us →
      us.map spelling = ts.map spelling →
      ((∃ e, parse text = .error e) ↔ ∃ e, parse text' = .error e) ∧
      (∀ st, Statement.parse ts = .ok st ↔ Statement.parse us = .ok st) ∧
      ∀ (s : Calculator η) persist,
        let one := s.exec text persist
        let other := s.exec text' persist
        one.ok = other.ok ∧
          one.session.record.lastResult = other.session.record.lastResult ∧
          one.session.environment = other.session.environment ∧
          (parse text = .ok ts →
            one.session.record.lastError = other.session.record.lastError) := by
  refine ⟨fun a w b hne hw => ?_, fun text text' ts us hts hus h => ?_⟩
  · have hseam := Token.tokenize_append hne hw a b
    refine ⟨fun e ha => ?_, fun ts e ha hb => ?_, fun ts us ha hb => ?_⟩
    · rw [hseam, ha]
      rfl
    · rw [hseam, ha, hb]
      rfl
    · rw [hseam, ha, hb]
      rfl
  · have hsame : ∀ st, Statement.parse ts = .ok st ↔ Statement.parse us = .ok st := fun st =>
      ⟨Statement.parse_congr h, Statement.parse_congr h.symm⟩
    refine ⟨?_, hsame, fun s persist => ?_⟩
    · simp only [parse, hts, hus]
      cases hst : Statement.parse ts with
      | ok st => simp [(hsame st).mp hst]
      | error e =>
        cases hst' : Statement.parse us with
        | ok st => rw [(hsame st).mpr hst'] at hst; cases hst
        | error e' => simp
    · obtain ⟨henv, hresult⟩ := event_congr hts hus h s.environment persist
      simp only [exec, Session.exec_eq_ofEvent, Session.Outcome.ofEvent]
      rcases hresult with ⟨-, hresult⟩ | ⟨⟨e, hst⟩, message, message', hone, hother⟩
      · have hshown := Session.shown_note frontend engine s.record hresult
        refine ⟨?_, hshown.1, henv, fun _ => hshown.2⟩
        simp only [Session.Event.succeeded, Session.Event.message?, hresult]
      · refine ⟨?_, ?_, henv, fun hparse => ?_⟩
        · simp only [Session.Event.succeeded, Session.Event.message?, hone, hother,
            Option.isNone_some]
        · rw [lastResult_note_of_failed _ hone, lastResult_note_of_failed _ hother]
        · simp only [parse, hts, hst] at hparse
          cases hparse

/-- A blank of three bytes moves the fault by as many, and `x=1` is run like `x = 1`. -/
theorem layout_never_matters_wide :
    tokenize ("(1" ++ "\u3000" ++ "2 $") = .error (.unexpectedChar '$' 7) ∧
      ∀ s : Calculator Unit,
        (s.exec "x=1" true).session.environment = (s.exec "x =\t1" true).session.environment := by
  obtain ⟨hseam, hsame⟩ := layout_never_matters (η := Unit)
  have hfault := (hseam "(1" "\u3000" "2 $" (by decide) (by decide)).2.1
    [⟨.openParen, 0, "("⟩, ⟨.number, 1, "1"⟩, ⟨.ending, 2, ""⟩] (.unexpectedChar '$' 2)
    (by decide +kernel) (by decide +kernel)
  refine ⟨hfault, fun s => ?_⟩
  have hrun := (hsame "x=1" "x =\t1"
    [⟨.variable, 0, "x"⟩, ⟨.assign, 1, "="⟩, ⟨.number, 2, "1"⟩, ⟨.ending, 3, ""⟩]
    [⟨.variable, 0, "x"⟩, ⟨.assign, 2, "="⟩, ⟨.number, 4, "1"⟩, ⟨.ending, 5, ""⟩]
    (by decide +kernel) (by decide +kernel) (by decide)).2.2 s true
  exact hrun.2.2.1

end Calculator

end Abacus
