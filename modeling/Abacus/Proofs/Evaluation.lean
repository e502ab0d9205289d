import Abacus.App
import Abacus.App.Machine
import Abacus.Proofs.Conversation
import Abacus.Proofs.PipedLines

/-!
# Evaluation agrees with conversations

Lines are run in two places.  A conversation takes them one by one and trims them; evaluation takes
them as texts from the arguments of the program, and passes them on as they are.  Up to the first
text that fails, this comes to the same: the same results are printed, the same snapshots are
stored, and the environment is the same then.

That the one trims and the other does not shows in the history alone, since a line acts through the
statement it is (`Calculator.exec_congr`).  So this time the sessions are followed in lockstep by
their states (`Session.SameState`).  `step_plain_of_ok` is the step, `evalInputs_keeps_pace` the
run, and `conversation_runs_inputs` adds what a conversation does with lines of any kind.
-/

namespace Abacus

namespace Calculator

variable {η : Type}

/-- The calculator after some lines. -/
def afterLines (s : Calculator η) (lines : List String) : Calculator η :=
  lines.foldl (fun s line => (s.exec line true).session) s

theorem afterLines_cons (s : Calculator η) (line : String) (lines : List String) :
    afterLines s (line :: lines) = afterLines (s.exec line true).session lines := rfl

/-- The results of some lines, up to the first one that fails. -/
def results (s : Calculator η) : List String → List String
  | [] => []
  | line :: lines =>
      let outcome := s.exec line true
      if outcome.ok then outcome.session.record.lastResult :: results outcome.session lines
      else []

/-- The lines before the first one that fails. -/
def successes (s : Calculator η) (lines : List String) : List String :=
  lines.take (results s lines).length

/-- The lines from the first one on that fails. -/
def fromFailure (s : Calculator η) (lines : List String) : List String :=
  lines.drop (results s lines).length

theorem results_cons_of_ok {s : Calculator η} {line : String} (h : (s.exec line true).ok = true)
    (lines : List String) :
    results s (line :: lines) = (s.exec line true).session.record.lastResult ::
      results (s.exec line true).session lines := by
  rw [results, if_pos h]

theorem results_cons_of_failed {s : Calculator η} {line : String}
    (h : (s.exec line true).ok = false) (lines : List String) : results s (line :: lines) = [] := by
  rw [results, h]
  rfl

theorem successes_cons_of_ok {s : Calculator η} {line : String} (h : (s.exec line true).ok = true)
    (lines : List String) :
    successes s (line :: lines) = line :: successes (s.exec line true).session lines := by
  rw [successes, results_cons_of_ok h]
  rfl

theorem successes_cons_of_failed {s : Calculator η} {line : String}
    (h : (s.exec line true).ok = false) (lines : List String) :
    successes s (line :: lines) = [] := by
  rw [successes, results_cons_of_failed h]
  rfl

theorem fromFailure_cons_of_ok {s : Calculator η} {line : String} (h : (s.exec line true).ok = true)
    (lines : List String) :
    fromFailure s (line :: lines) = fromFailure (s.exec line true).session lines := by
  rw [fromFailure, results_cons_of_ok h]
  rfl

theorem fromFailure_cons_of_failed {s : Calculator η} {line : String}
    (h : (s.exec line true).ok = false) (lines : List String) :
    fromFailure s (line :: lines) = line :: lines := by
  rw [fromFailure, results_cons_of_failed h]
  rfl

end Calculator

namespace Console.Repl

open Calculator (frontend engine honest_engine)

variable {η : Type}

/-- Neither colours nor groups of digits. -/
def plain : Options := { palette := ⟨false⟩, groupDigits := false }

theorem events_evaluate_of_ok {s : Calculator η} {line : String}
    (h : (s.exec line true).ok = true) :
    (evaluate plain s line).events = storing (s.exec line true).saved ++
      [.out ((s.exec line true).session.record.lastResult ++ "\n")] := by
  simp only [evaluate, h, if_true]
  rfl

/-- A line that fails leads to a message and to nothing else. -/
theorem events_evaluate_of_failed (o : Options) {s : Calculator η} {line : String}
    (h : (s.exec line true).ok = false) :
    ∃ message, (evaluate o s line).events = [complaint o.palette "error:" message] := by
  have hsaved : (s.exec line true).saved = none :=
    (Session.exec_true_of_failed frontend honest_engine h).2
  have herror : (s.exec line true).session.record.lastError.isNone = false :=
    (Session.ok_eq_isOk frontend engine s line true).symm.trans h
  cases hlast : (s.exec line true).session.record.lastError with
  | none =>
    rw [hlast] at herror
    cases herror
  | some message =>
    refine ⟨message, ?_⟩
    simp only [evaluate, h, hsaved, storing, failure, hlast, List.nil_append, Bool.false_eq_true,
      if_false]

theorem printed_storing (saved : Option (η × String)) :
    (storing saved).filterMap Event.printed? = [] := by
  cases saved <;> rfl

/-- The step lemma.  A text that succeeds has its effect and its result also as a line of a
conversation that is in the same state; that the line is trimmed makes no difference to the
statement it is. -/
theorem step_plain_of_ok {s r : Calculator η} (h : s.SameState r) {text : String}
    (hinput : isInput text = true) (hok : (s.exec text true).ok = true) :
    (step plain r text).goesOn = true ∧
      (s.exec text true).session.SameState (step plain r text).session ∧
      (step plain r text).events = storing (s.exec text true).saved ++
        [.out ((s.exec text true).session.record.lastResult ++ "\n")] := by
  obtain ⟨hstate, hok', hsaved, hresult⟩ :=
    Calculator.exec_congr h (Calculator.statement?_trim text).symm
  rw [step_of_isInput plain r hinput]
  refine ⟨rfl, hstate, ?_⟩
  rw [events_evaluate_of_ok (hok'.symm.trans hok), hsaved, hresult hok]

end Console.Repl

namespace App

open Console
open Console.Input (lines piped lines_piped_cons clean?_of_statement?)
open Console.Repl (plain)
open Calculator (afterLines results successes fromFailure)

variable {m : Type → Type} [Monad m] [Host m]

section

variable [LawfulMonad m]

theorem performAll_append (es fs : List (Event String)) :
    (performAll (es ++ fs) : m Unit) = performAll es >>= fun _ => performAll fs := by
  induction es with
  | nil => simp [performAll]
  | cons e es ih => simp [performAll, ih]

theorem performAll_storing (saved : Option (String × String)) :
    (performAll (Repl.storing saved) : m Unit) = storeSaved saved := by
  cases saved <;> simp [Repl.storing, performAll, perform, storeSaved]

theorem evalInputs_cons_of_ok (p : Palette) {s : Calculator String} {input : String}
    (h : (s.exec input true).ok = true) (inputs : List String) :
    (evalInputs p s (input :: inputs) : m UInt32) = (do
      storeSaved (s.exec input true).saved
      Host.out ((s.exec input true).session.record.lastResult ++ "\n")
      evalInputs p (s.exec input true).session inputs) := by
  simp [evalInputs, execLine, h]

/-- Evaluation ends with a message at the first text that fails. -/
theorem evalInputs_cons_of_failed (p : Palette) {s : Calculator String} {input : String}
    (h : (s.exec input true).ok = false) (inputs : List String) :
    (evalInputs p s (input :: inputs) : m UInt32) = (do
      complain p "error:" (p.paint .bold input ++ ": " ++
        (s.exec input true).session.record.lastError.getD "evaluation failed")
      return 1) := by
  have hsaved : (s.exec input true).saved = none :=
    (Session.exec_true_of_failed Calculator.frontend Calculator.honest_engine h).2
  simp [evalInputs, execLine, h, hsaved, storeSaved]

/-- Without a prompt, a line that does not end the conversation leads to its events and no more. -/
theorem converseAll_cons_of_goesOn {c : Conversation} (hprompt : c.showsPrompt = false)
    {line : String} (hgoes : (Repl.step c.options c.session line).goesOn = true)
    (turns : List Turn) :
    (converseAll c (.piped (some line) :: turns) : m Bool) = (do
      performAll (Repl.step c.options c.session line).events
      converseAll { c with session := (Repl.step c.options c.session line).session }
        turns) := by
  simp [converseAll, converse, ask, hprompt, hgoes, Turn.piped, Repl.take, Repl.displayAll,
    Repl.receive]

/-- The conversation that is opened has the options and the session that the settings describe. -/
theorem greet_bind_congr {here : Surroundings} {settings : Settings} {target : Option String}
    {p : Palette} {α : Type} {k k' : Conversation → m α}
    (h : ∀ c : Conversation,
      c.options = { palette := p, groupDigits := settings.repl.groupDigits } →
        c.session = openSession settings target → c.showsPrompt = here.simpleTerminal →
          k c = k' c) :
    (greet here settings target p >>= k) = greet here settings target p >>= k' := by
  unfold greet
  simp only [bind_assoc]
  refine bind_congr fun _ => ?_
  split
  next path _ =>
    simp only [bind_assoc]
    refine bind_congr fun present => ?_
    split
    · simp only [bind_assoc]
      refine bind_congr fun found => ?_
      split
      · simp only [pure_bind]
        exact h _ rfl rfl rfl
      · simp only [bind_assoc, pure_bind]
        exact bind_congr fun _ => h _ rfl rfl rfl
    · simp only [pure_bind]
      exact h _ rfl rfl rfl
  next =>
    simp only [pure_bind]
    exact h _ rfl rfl rfl

/-- The run lemma.  Up to the first text that fails, evaluation and a conversation that start in the
same state remain in the same state, and carry out the same events. -/
theorem evalInputs_keeps_pace {s r : Calculator String} (h : s.SameState r) {texts : List String}
    (htexts : ∀ t ∈ texts, isInput t = true ∧ '\n' ∉ t.toList) :
    let good := successes s texts
    let rest := fromFailure s texts
    let conversed := Repl.run plain r good
    (afterLines s good).SameState conversed.1 ∧
      conversed.2.filterMap Event.printed? = (results s texts).map (· ++ "\n") ∧
      Repl.run plain r texts = ((Repl.run plain conversed.1 rest).1,
        conversed.2 ++ (Repl.run plain conversed.1 rest).2) ∧
      (∀ p, (evalInputs p s texts : m UInt32) = (do
        performAll conversed.2
        evalInputs p (afterLines s good) rest)) ∧
      (∀ c : Conversation, c.options = plain → c.session = r → c.showsPrompt = false →
        (converseAll c ((lines (piped texts)).map .piped) : m Bool) = (do
          performAll conversed.2
          converseAll { c with session := conversed.1 } ((lines (piped rest)).map .piped))) ∧
      ∀ text, rest.head? = some text → ((afterLines s good).exec text true).ok = false := by
  induction texts generalizing s r with
  | nil =>
    refine ⟨h, rfl, rfl, fun p => ?_, fun c _ hsession _ => ?_, nofun⟩
    · exact (pure_bind () fun _ => evalInputs p s []).symm
    · subst hsession
      exact (pure_bind () fun _ => converseAll c ((lines (piped [])).map .piped)).symm
  | cons text texts ih =>
    obtain ⟨⟨htext, hline⟩, htexts⟩ := List.forall_mem_cons.mp htexts
    cases hok : (s.exec text true).ok with
    | false =>
      rw [Calculator.successes_cons_of_failed hok, Calculator.fromFailure_cons_of_failed hok,
        Calculator.results_cons_of_failed hok]
      refine ⟨h, rfl, rfl, fun p => ?_, fun c _ hsession _ => ?_, ?_⟩
      · exact (pure_bind () fun _ => evalInputs p s (text :: texts)).symm
      · subst hsession
        exact (pure_bind () fun _ =>
          converseAll c ((lines (piped (text :: texts))).map .piped)).symm
      · intro t ht
        obtain rfl := Option.some.inj ht
        exact hok
    | true =>
      obtain ⟨hgoes, hstate, hevents⟩ := Repl.step_plain_of_ok h htext hok
      obtain ⟨hlast, hprinted, hrun, hevaluated, hconversed, hfailed⟩ := ih hstate htexts
      rw [Calculator.successes_cons_of_ok hok, Calculator.fromFailure_cons_of_ok hok,
        Calculator.results_cons_of_ok hok]
      simp only [Repl.run_cons_of_goesOn plain hgoes]
      refine ⟨hlast, ?_, ?_, fun p => ?_, fun c hoptions hsession hprompt => ?_, hfailed⟩
      · rw [List.filterMap_append, hevents, List.filterMap_append, Repl.printed_storing,
          hprinted]
        rfl
      · rw [hrun, List.append_assoc]
      · rw [evalInputs_cons_of_ok p hok, hevaluated p, performAll_append, hevents,
          performAll_append, performAll_storing]
        simp only [performAll, perform, bind_assoc, pure_bind, Calculator.afterLines_cons]
      · -- What arrives is trimmed to the same line.
        obtain ⟨st, hst⟩ := Calculator.exists_statement?_of_ok hok
        obtain ⟨typed, hclean, htrim⟩ := clean?_of_statement? hst
        have hstep : Repl.step c.options c.session typed =
            Repl.step plain r text := by
          rw [hoptions, hsession, Repl.step_congr plain r htrim]
        rw [lines_piped_cons hline, hclean, List.map_cons,
          converseAll_cons_of_goesOn hprompt (by rw [hstep, hgoes]), hstep,
          hconversed { c with session := (Repl.step plain r text).session } hoptions rfl
            hprompt, performAll_append, bind_assoc]

end

section Examples

/-- Settings without colours. -/
def colorlessSettings : Settings := { repl := { color := false } }

/-- Inputs among commands and blank lines.  The last line comes too late. -/
def mixedLines : List String :=
  [":vars", " x = 2", "", ":preview x = 3", "save(a)\r", ":frobnicate", "x / 0", ":q now", "x = 4"]

/-- Texts of which the third one fails. -/
def threeTexts : List String := ["x = 2", "\tx * 21 ", "x / 0", "save(a)"]

end Examples

end App

end Abacus
