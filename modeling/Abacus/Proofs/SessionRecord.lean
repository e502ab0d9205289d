import Mathlib.Data.List.Induction
import Abacus.Session.Calls

/-!
# What the record of a session says

The record has four parts, and each follows a rule of its own when a line has been
run.  This module says what the parts mean after *any* list of calls on a new session,
in terms of what the front end and the engine did and of nothing else.

## Events

What the two collaborators do with a line does not depend on the record.  So a list of
calls determines a list of *events*, one for each line that was run: the tokens of the
line, the state in which it left the engine, and the result or the message.  `events`
threads nothing but the state of the engine through the calls.

## From one line to a whole run

`exec_eq_ofEvent` says what one line does to a session: the event is noted.  Hence the record
after a run is a fold of `Record.note` over the events (`record_run`), and what is left
is to read each part off the fold.  The parts look back from the last event, so these
inductions add events at the end of the list.

## Calls of the engine

That a session runs its engine once for every line that parses, and never otherwise, is
a statement about the engine and not about the record.  `Engine.logged` is an engine
that keeps a list of the calls made to it.  It is an engine like any other, so it can be
put under a session, and what its list holds after a run says how it was called.
-/

namespace Abacus

/-- The engine that does what `engine` does and keeps a list of its executions: their
tokens, and whether they were to be kept. -/
def Engine.logged {σ τ ν : Type} (engine : Engine σ τ ν) :
    Engine (σ × List (List τ × Bool)) τ ν where
  execute s tokens persist :=
    let (environment, result) := engine.execute s.1 tokens persist
    ((environment, s.2 ++ [(tokens, persist)]), result)
  bindings s := engine.bindings s.1
  display := engine.display
  snapshot s := engine.snapshot s.1

namespace Session

variable {σ τ ν η : Type}

/-- What the front end and the engine did with a line. -/
structure Event (σ τ : Type) where
  input : String
  /-- Whether the effects were to be kept. -/
  persist : Bool
  /-- The tokens, if there is a reading. -/
  tokens : List τ
  /-- The result, or the message of whichever of the two refused the line. -/
  result : Except String String
  /-- The state of the engine afterwards. -/
  environment : σ

namespace Event

/-- The message, if the line failed. -/
def message? (e : Event σ τ) : Option String :=
  match e.result with
  | .ok _ => none
  | .error message => some message

/-- The result text; empty if the line failed. -/
def text (e : Event σ τ) : String :=
  match e.result with
  | .ok result => result
  | .error _ => ""

/-- Whether the line succeeded. -/
def succeeded (e : Event σ τ) : Bool := e.message?.isNone

/-- Whether the line succeeded and was to be kept. -/
def persisted (e : Event σ τ) : Bool := e.persist && e.succeeded

/-- The line and its result. -/
def entry (e : Event σ τ) : Entry := ⟨e.input, e.text⟩

/-- What happens to a line that is run while the engine is in state `environment`. -/
def of (front : Frontend τ) (engine : Engine σ τ ν) (environment : σ) (input : String)
    (persist : Bool) : Event σ τ :=
  match front.parse input with
  | .error message => { input, persist, tokens := [], result := .error message, environment }
  | .ok tokens =>
      let after := engine.execute environment tokens persist
      { input, persist, tokens, result := after.2, environment := after.1 }

variable {e : Event σ τ} {message result : String}

theorem message?_of_error (h : e.result = .error message) : e.message? = some message := by
  simp [message?, h]

theorem message?_of_ok (h : e.result = .ok result) : e.message? = none := by
  simp [message?, h]

theorem text_of_ok (h : e.result = .ok result) : e.text = result := by
  simp [text, h]

theorem succeeded_of_error (h : e.result = .error message) : e.succeeded = false := by
  rw [succeeded, message?_of_error h, Option.isNone_some]

theorem succeeded_of_ok (h : e.result = .ok result) : e.succeeded = true := by
  rw [succeeded, message?_of_ok h, Option.isNone_none]

theorem persisted_of_error (h : e.result = .error message) : e.persisted = false := by
  rw [persisted, succeeded_of_error h, Bool.and_false]

theorem persisted_of_ok (h : e.result = .ok result) : e.persisted = e.persist := by
  rw [persisted, succeeded_of_ok h, Bool.and_true]

theorem entry_of_ok (h : e.result = .ok result) : e.entry = ⟨e.input, result⟩ := by
  rw [entry, text_of_ok h]

end Event

/-- The events of some calls, the engine being in state `environment` at first. -/
def events (front : Frontend τ) (engine : Engine σ τ ν) (environment : σ) :
    List (Call η) → List (Event σ τ)
  | [] => []
  | .exec input persist :: calls =>
      let e := Event.of front engine environment input persist
      e :: events front engine e.environment calls
  | .parse _ :: calls => events front engine environment calls
  | .onSave _ :: calls => events front engine environment calls

/-- The execution that a call asks for: that of the tokens of its line, if it has any
reading. -/
def Call.execution? (front : Frontend τ) : Call η → Option (List τ × Bool)
  | .exec input persist => (front.parse input).toOption.map fun tokens => (tokens, persist)
  | .parse _ => none
  | .onSave _ => none

/-- Whether the line of a call succeeded, if the call ran one. -/
def Answer.ok? : Answer σ τ η → Option Bool
  | .executed outcome => some outcome.ok
  | .parsed _ => none
  | .registered => none

/-- The record after an event. -/
def Record.note (front : Frontend τ) (engine : Engine σ τ ν) (r : Record) (e : Event σ τ) :
    Record :=
  match e.result with
  | .error message => r.fail message
  | .ok result =>
      if e.persist then
        (r.succeed result).commit (clears front e.tokens) ⟨e.input, result⟩
          ((engine.bindings e.environment).map engine.display)
      else r.succeed result

section Note

variable {front : Frontend τ} {engine : Engine σ τ ν} {r : Record} {e : Event σ τ}

theorem Record.note_of_error {message : String} (h : e.result = .error message) :
    r.note front engine e = r.fail message := by
  simp only [note, h]

theorem Record.note_of_ok {result : String} (h : e.result = .ok result) :
    r.note front engine e =
      if e.persist then
        (r.succeed result).commit (clears front e.tokens) ⟨e.input, result⟩
          ((engine.bindings e.environment).map engine.display)
      else r.succeed result := by
  simp only [note, h]

end Note

/-- What a session makes of an event. -/
def Outcome.ofEvent (front : Frontend τ) (engine : Engine σ τ ν) (s : Session σ η)
    (e : Event σ τ) : Outcome σ η where
  session :=
    { s with environment := e.environment, record := s.record.note front engine e }
  ok := e.succeeded
  saved :=
    if e.persisted && saves front e.tokens then
      s.hook.map fun hook => (hook, engine.snapshot e.environment)
    else none

/-! ## One line -/

/-- A line leads to what its event leads to. -/
theorem exec_eq_ofEvent (front : Frontend τ) (engine : Engine σ τ ν) (s : Session σ η)
    (input : String) (persist : Bool) :
    exec front engine s input persist =
      .ofEvent front engine s (Event.of front engine s.environment input persist) := by
  unfold exec Event.of
  cases front.parse input with
  | error message => cases persist <;> rfl
  | ok tokens =>
    simp only
    rcases engine.execute s.environment tokens persist with ⟨environment, message | result⟩
    · cases persist <;> rfl
    · cases persist <;> rfl

/-! ## A whole run -/

section WholeRun

variable (front : Frontend τ) (engine : Engine σ τ ν)

/-- The record after some calls is the former one with their events noted. -/
theorem record_run (s : Session σ η) (calls : List (Call η)) :
    (run front engine s calls).1.record =
      (events front engine s.environment calls).foldl (Record.note front engine) s.record := by
  induction calls generalizing s with
  | nil => rfl
  | cons c calls ih =>
    cases c with
    | exec input persist =>
      have h := ih (exec front engine s input persist).session
      rw [exec_eq_ofEvent] at h
      rw [run, step, exec_eq_ofEvent]
      exact h
    | parse input => exact ih s
    | onSave hook => exact ih (s.onSave hook)

/-- The lines are reported one after another as their events went. -/
theorem ok_run (s : Session σ η) (calls : List (Call η)) :
    (run front engine s calls).2.filterMap Answer.ok? =
      (events front engine s.environment calls).map Event.succeeded := by
  induction calls generalizing s with
  | nil => rfl
  | cons c calls ih =>
    cases c with
    | exec input persist =>
      have h := ih (exec front engine s input persist).session
      rw [exec_eq_ofEvent] at h
      rw [run, step, exec_eq_ofEvent, List.filterMap_cons, Answer.ok?, events, List.map_cons, h]
      rfl
    | parse input => exact ih s
    | onSave hook => exact ih (s.onSave hook)

/-- Whatever a run reports about a line, it reports success exactly if the record shows
no error then. -/
theorem ok_eq_isNone_of_mem_run {s : Session σ η} {calls : List (Call η)}
    {outcome : Outcome σ η} (h : .executed outcome ∈ (run front engine s calls).2) :
    outcome.ok = outcome.session.record.lastError.isNone := by
  induction calls generalizing s with
  | nil => simp [run] at h
  | cons c calls ih =>
    rcases List.mem_cons.mp h with h | h
    · cases c with
      | exec input persist =>
        obtain rfl : outcome = exec front engine s input persist := by
          simpa [step] using h
        exact ok_eq_isOk front engine s input persist
      | parse input => simp at h
      | onSave hook => simp at h
    · exact ih h

/-- The engine after some calls has made the executions they ask for, in their order. -/
theorem environment_run (s : Session σ η) (calls : List (Call η)) :
    (run front engine s calls).1.environment =
      (calls.filterMap (Call.execution? front)).foldl
        (fun environment x => (engine.execute environment x.1 x.2).1) s.environment := by
  induction calls generalizing s with
  | nil => rfl
  | cons c calls ih =>
    cases c with
    | exec input persist =>
      have h := ih (exec front engine s input persist).session
      rw [exec_eq_ofEvent, Event.of] at h
      rw [List.filterMap_cons, Call.execution?, run, step, exec_eq_ofEvent, Event.of]
      cases hp : front.parse input with
      | error message =>
        rw [hp] at h
        exact h
      | ok tokens =>
        rw [hp] at h
        exact h
    | parse input => exact ih s
    | onSave hook => exact ih (s.onSave hook)

/-- Executing some tokens one after another with the logged engine does what the engine
does, and logs them. -/
theorem foldl_execute_logged (xs : List (List τ × Bool)) (environment : σ)
    (log : List (List τ × Bool)) :
    xs.foldl (fun s x => (engine.logged.execute s x.1 x.2).1) (environment, log) =
      (xs.foldl (fun s x => (engine.execute s x.1 x.2).1) environment, log ++ xs) := by
  induction xs generalizing environment log with
  | nil => simp
  | cons x xs ih =>
    rw [List.foldl_cons, List.foldl_cons]
    have hx : (engine.logged.execute (environment, log) x.1 x.2).1 =
        ((engine.execute environment x.1 x.2).1, log ++ [x]) := rfl
    rw [hx, ih, List.append_assoc, List.singleton_append]

end WholeRun

/-! ## The parts of the record -/

section Parts

variable (front : Frontend τ) (engine : Engine σ τ ν)

/-- The record of a new session after some events. -/
abbrev noted (es : List (Event σ τ)) : Record := es.foldl (Record.note front engine) {}

theorem noted_concat (es : List (Event σ τ)) (e : Event σ τ) :
    noted front engine (es ++ [e]) = (noted front engine es).note front engine e := by
  simp [noted]

/-- The last error is the message of the last line, if that failed. -/
theorem lastError_noted (es : List (Event σ τ)) :
    (noted front engine es).lastError = es.getLast?.bind Event.message? := by
  induction es using List.reverseRecOn with
  | nil => rfl
  | append_singleton es e ih =>
    rw [noted_concat, List.getLast?_concat, Option.bind_some]
    cases h : e.result with
    | error message => rw [Record.note_of_error h, Event.message?_of_error h, Record.fail]
    | ok result =>
      rw [Record.note_of_ok h, Event.message?_of_ok h]
      cases e.persist <;> simp [Record.succeed, Record.commit]

/-- The last result is that of the last line that succeeded. -/
theorem lastResult_noted (es : List (Event σ τ)) :
    (noted front engine es).lastResult =
      ((es.filter Event.succeeded).getLast?.map Event.text).getD "" := by
  induction es using List.reverseRecOn with
  | nil => rfl
  | append_singleton es e ih =>
    rw [noted_concat, List.filter_append]
    cases h : e.result with
    | error message =>
      rw [Record.note_of_error h]
      simp [Event.succeeded_of_error h, Record.fail, ih]
    | ok result =>
      rw [Record.note_of_ok h]
      cases e.persist <;>
        simp [Event.succeeded_of_ok h, Event.text_of_ok h, Record.succeed, Record.commit]

/-- The history holds the lines that persisted, newest first, back to the last one that
cleared. -/
theorem history_noted (es : List (Event σ τ)) :
    (noted front engine es).history =
      ((es.filter Event.persisted).reverse.takeWhile fun e =>
        e.tokens.head?.map front.role != some .clear).map Event.entry := by
  change _ = ((es.filter Event.persisted).reverse.takeWhile fun e =>
    !clears front e.tokens).map Event.entry
  induction es using List.reverseRecOn with
  | nil => rfl
  | append_singleton es e ih =>
    rw [noted_concat, List.filter_append, List.reverse_append]
    cases h : e.result with
    | error message =>
      rw [Record.note_of_error h]
      simp [Event.persisted_of_error h, Record.fail, ih]
    | ok result =>
      rw [Record.note_of_ok h]
      have hs := Event.persisted_of_ok h
      cases hp : e.persist with
      | false => simp [hs, hp, Record.succeed, ih]
      | true =>
        -- A line that clears stops the look back at itself, any other goes in front.
        cases hc : clears front e.tokens <;>
          simp [hs, hp, hc, Event.entry_of_ok h, Record.succeed, Record.commit, ih]

/-- The variables shown are those after the last line that persisted. -/
theorem bindings_noted (es : List (Event σ τ)) :
    (noted front engine es).bindings =
      match (es.filter Event.persisted).getLast? with
      | some e => (engine.bindings e.environment).map engine.display
      | none => .empty := by
  induction es using List.reverseRecOn with
  | nil => rfl
  | append_singleton es e ih =>
    rw [noted_concat, List.filter_append]
    cases h : e.result with
    | error message =>
      rw [Record.note_of_error h]
      simp [Event.persisted_of_error h, Record.fail, ih]
    | ok result =>
      rw [Record.note_of_ok h]
      have hs := Event.persisted_of_ok h
      cases hp : e.persist <;> simp [hs, hp, Record.succeed, Record.commit, ih]

end Parts

/-! ## The record after any calls -/

/-- **The whole record.**  Let `es` be the events of any calls on a new session.

* The history holds the lines that persisted, newest first, back to the last one that
  cleared, which is not among them.
* The variables are those of the engine right after the last line that persisted.
* The last result is that of the last line that succeeded.
* The last error is the message of the last line, if that failed; every line is reported
  as a success exactly if it left no error.
* The engine has executed the tokens of each line that parses once, in the order of the
  lines and with their flags, and nothing else; logging this changes nothing. -/
theorem run_start_eq_noted (front : Frontend τ) (engine : Engine σ τ ν) (environment : σ)
    (calls : List (Call η)) :
    let last := (run front engine (start environment) calls).1
    let answers := (run front engine (start environment) calls).2
    let logged := (run front engine.logged (start (environment, [])) calls).1
    let es := events front engine environment calls
    last.record.history =
        ((es.filter Event.persisted).reverse.takeWhile fun e =>
          e.tokens.head?.map front.role != some .clear).map Event.entry ∧
      last.record.bindings =
        (match (es.filter Event.persisted).getLast? with
          | some e => (engine.bindings e.environment).map engine.display
          | none => .empty) ∧
      last.record.lastResult = ((es.filter Event.succeeded).getLast?.map Event.text).getD "" ∧
      last.record.lastError = es.getLast?.bind Event.message? ∧
      answers.filterMap Answer.ok? = es.map Event.succeeded ∧
      (∀ outcome, .executed outcome ∈ answers →
        outcome.ok = outcome.session.record.lastError.isNone) ∧
      logged.environment = (last.environment, calls.filterMap (Call.execution? front)) := by
  intro last answers logged es
  have hrecord : last.record = noted front engine es :=
    record_run front engine (start environment) calls
  have hlogged : logged.environment =
      (last.environment, [] ++ calls.filterMap (Call.execution? front)) := by
    rw [environment_run, environment_run]
    exact foldl_execute_logged engine _ environment []
  rw [hrecord]
  refine ⟨history_noted front engine es, bindings_noted front engine es,
    lastResult_noted front engine es, lastError_noted front engine es,
    ok_run front engine (start environment) calls, fun outcome h => ?_, hlogged⟩
  exact ok_eq_isNone_of_mem_run front engine h

end Session

end Abacus
