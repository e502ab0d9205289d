import Abacus.Console.Typing
import Abacus.Proofs.SessionRecord

/-!
# Previews

A preview shows what a line would do and does none of it.  Two things are to be said
about that: what a preview reports is what running the line would report, and a use of
the calculator from which all previews are struck out goes on as if they were there.

## What is needed of an engine

The session leaves it to its engine to honour the flag.  `Engine.Honest` lists what an
engine has to do for that; environments do it, because a statement answers with a new
environment and somebody else decides whether to keep it (`Calculator.honest_engine`).
What is said about sessions here holds for every honest engine.

## Striking out

A line that is run to persist and succeeds is *effective*; every other use of the
calculator is idle: previews, hints, parsing, and lines that fail.  An idle use may
change what a session shows of the last line, so the session with it and the one without
are not equal.  They agree in what lines can read and in what they build on
(`Session.Agrees`), and the next effective line makes them equal again, since it
overwrites the rest.
-/

namespace Abacus

/-- The engine keeps nothing of a preview or of a failure, and a preview reports what an
execution to be kept would report. -/
structure Engine.Honest {σ τ ν : Type} (engine : Engine σ τ ν) : Prop where
  preview : ∀ environment tokens, (engine.execute environment tokens false).1 = environment
  report : ∀ environment tokens,
    (engine.execute environment tokens false).2 = (engine.execute environment tokens true).2
  failure : ∀ environment tokens message,
    (engine.execute environment tokens true).2 = .error message →
      (engine.execute environment tokens true).1 = environment

namespace Session

variable {σ τ ν η : Type} (front : Frontend τ) {engine : Engine σ τ ν}

/-- The sessions differ at most in what they show of the last line. -/
structure Agrees (s t : Session σ η) : Prop where
  environment : s.environment = t.environment
  history : s.record.history = t.record.history
  bindings : s.record.bindings = t.record.bindings
  hook : s.hook = t.hook

theorem Agrees.refl (s : Session σ η) : Agrees s s := ⟨rfl, rfl, rfl, rfl⟩

theorem Agrees.trans {s t u : Session σ η} (h : Agrees s t) (h' : Agrees t u) : Agrees s u where
  environment := h.environment.trans h'.environment
  history := h.history.trans h'.history
  bindings := h.bindings.trans h'.bindings
  hook := h.hook.trans h'.hook

/-! ## Events of an honest engine -/

theorem environment_of_preview (he : engine.Honest) (environment : σ) (input : String) :
    (Event.of front engine environment input false).environment = environment := by
  unfold Event.of
  cases front.parse input with
  | error message => rfl
  | ok tokens => exact he.preview environment tokens

theorem result_of_preview (he : engine.Honest) (environment : σ) (input : String) :
    (Event.of front engine environment input false).result =
      (Event.of front engine environment input true).result := by
  unfold Event.of
  cases front.parse input with
  | error message => rfl
  | ok tokens => exact he.report environment tokens

theorem environment_of_failure (he : engine.Honest) {environment : σ} {input message : String}
    (h : (Event.of front engine environment input true).result = .error message) :
    (Event.of front engine environment input true).environment = environment := by
  unfold Event.of at h ⊢
  cases hp : front.parse input with
  | error message => rfl
  | ok tokens =>
    simp only [hp] at h ⊢
    exact he.failure environment tokens message h

/-! ## What a record makes of an event -/

variable (engine) in
/-- What is shown of the last line depends on its result alone. -/
theorem shown_note (r : Record) {e e' : Event σ τ} (h : e.result = e'.result) :
    (r.note front engine e).lastResult = (r.note front engine e').lastResult ∧
      (r.note front engine e).lastError = (r.note front engine e').lastError := by
  cases hr : e'.result with
  | error message =>
    rw [Record.note_of_error hr, Record.note_of_error (h.trans hr)]
    exact ⟨rfl, rfl⟩
  | ok result =>
    rw [Record.note_of_ok hr, Record.note_of_ok (h.trans hr)]
    cases e.persist <;> cases e'.persist <;> exact ⟨rfl, rfl⟩

variable (engine) in
/-- A line that does not persist leaves the history and the variables. -/
theorem kept_note (r : Record) {e : Event σ τ} (h : e.persisted = false) :
    (r.note front engine e).history = r.history ∧
      (r.note front engine e).bindings = r.bindings := by
  cases hr : e.result with
  | error message =>
    rw [Record.note_of_error hr]
    exact ⟨rfl, rfl⟩
  | ok result =>
    rw [Record.note_of_ok hr, (Event.persisted_of_ok hr).symm.trans h]
    exact ⟨rfl, rfl⟩

variable (engine) in
/-- A line that persists overwrites all but the history, which it builds on. -/
theorem note_congr {r r' : Record} {e : Event σ τ} (h : e.persisted = true)
    (hh : r.history = r'.history) :
    r.note front engine e = r'.note front engine e := by
  cases hr : e.result with
  | error message => simp [Event.persisted_of_error hr] at h
  | ok result =>
    rw [Record.note_of_ok hr, Record.note_of_ok hr, (Event.persisted_of_ok hr).symm.trans h]
    simp only [if_true, Record.commit, Record.succeed, hh]

/-! ## One line -/

/-- **A preview is honest and leaves nothing behind.** -/
theorem exec_false (he : engine.Honest) (s : Session σ η) (input : String) :
    let shown := exec front engine s input false
    let done := exec front engine s input true
    shown.ok = done.ok ∧
      shown.session.record.lastResult = done.session.record.lastResult ∧
      shown.session.record.lastError = done.session.record.lastError ∧
      Agrees shown.session s ∧ shown.saved = none := by
  have hresult := result_of_preview front he s.environment input
  have hshown := shown_note front engine s.record hresult
  have hidle : (Event.of front engine s.environment input false).persisted = false := by
    unfold Event.of
    cases front.parse input <;> rfl
  have hkept := kept_note front engine s.record hidle
  simp only [exec_eq_ofEvent, Outcome.ofEvent, hidle, Bool.false_and, Bool.false_eq_true, if_false]
  refine ⟨?_, hshown.1, hshown.2,
    ⟨environment_of_preview front he _ _, hkept.1, hkept.2, rfl⟩, trivial⟩
  simp only [Event.succeeded, Event.message?, hresult]

/-- A line that fails leaves nothing behind but its message. -/
theorem exec_true_of_failed (he : engine.Honest) {s : Session σ η} {input : String}
    (h : (exec front engine s input true).ok = false) :
    Agrees (exec front engine s input true).session s ∧
      (exec front engine s input true).saved = none := by
  rw [exec_eq_ofEvent] at h ⊢
  obtain ⟨message, hm⟩ : ∃ message,
      (Event.of front engine s.environment input true).result = .error message := by
    simp only [Outcome.ofEvent, Event.succeeded, Event.message?] at h
    split at h
    next => cases h
    next message hm => exact ⟨message, hm⟩
  have hidle := Event.persisted_of_error hm
  have hkept := kept_note front engine s.record hidle
  refine ⟨⟨environment_of_failure front he hm, hkept.1, hkept.2, rfl⟩, ?_⟩
  simp only [Outcome.ofEvent, hidle, Bool.false_and, Bool.false_eq_true, if_false]

/-- An effective line makes sessions that agree equal. -/
theorem exec_true_congr {s t : Session σ η} (h : Agrees s t) {input : String}
    (hok : (exec front engine s input true).ok = true) :
    exec front engine s input true = exec front engine t input true := by
  rw [exec_eq_ofEvent] at hok
  rw [exec_eq_ofEvent, exec_eq_ofEvent, ← h.environment]
  have hp : (Event.of front engine s.environment input true).persisted = true := by
    have hpersist : (Event.of front engine s.environment input true).persist = true := by
      unfold Event.of
      cases front.parse input <;> rfl
    rw [Event.persisted, hpersist, Bool.true_and]
    exact hok
  unfold Outcome.ofEvent
  rw [note_congr front engine hp h.history, h.hook]

end Session

namespace Calculator

open Console.Typing (previewHint)

variable {η : Type}

theorem engine_execute (env : Environment) (ts : List Token) (persist : Bool) :
    engine.execute env ts persist =
      ((env.execute ts persist).1, (env.execute ts persist).2.mapError RunError.message) := rfl

/-- Environments honour the flag. -/
theorem honest_engine : engine.Honest where
  preview env ts := env.execute_preview ts
  report env ts := by
    rw [engine_execute, engine_execute, env.execute_snd, env.execute_snd]
  failure env ts message h := by
    rw [engine_execute] at h ⊢
    unfold Environment.execute at h ⊢
    split at h
    next => cases h
    next => rfl

/-! ## Uses of the calculator -/

/-- What can be done with a calculator while a line is entered. -/
inductive Use where
  /-- Runs a line, to persist or as a preview. -/
  | exec (input : String) (persist : Bool)
  /-- Parses a line. -/
  | parse (input : String)
  /-- Shows a hint for a line that is being typed. -/
  | hint (line : String)
  deriving DecidableEq, Repr

/-- A use and what it led to. -/
structure Report (η : Type) where
  use : Use
  /-- The calculator afterwards. -/
  session : Calculator η
  /-- Whether it went well: the line succeeded, could be parsed or had a hint. -/
  ok : Bool
  /-- The hook that became due, with its snapshot. -/
  saved : Option (η × String)

/-- What a use leads to. -/
def report (s : Calculator η) : Use → Report η
  | .exec input persist =>
      let outcome := s.exec input persist
      { use := .exec input persist, session := outcome.session, ok := outcome.ok,
        saved := outcome.saved }
  | .parse input =>
      { use := .parse input, session := s, ok := (Session.parse frontend input).error.isNone,
        saved := none }
  | .hint line =>
      let hinted := previewHint s line
      { use := .hint line, session := hinted.1, ok := hinted.2.isSome, saved := none }

/-- What several uses lead to, one after another. -/
def reports (s : Calculator η) : List Use → List (Report η)
  | [] => []
  | use :: uses => report s use :: reports (report s use).session uses

/-- The calculator after several uses. -/
def after (s : Calculator η) : List Use → Calculator η
  | [] => s
  | use :: uses => after (report s use).session uses

/-- Whether a use was a line that was to persist and succeeded. -/
def Report.effective (r : Report η) : Bool :=
  match r.use with
  | .exec _ persist => persist && r.ok
  | .parse _ => false
  | .hint _ => false

/-- The uses that had an effect. -/
def effectiveUses (s : Calculator η) (uses : List Use) : List Use :=
  ((reports s uses).filter Report.effective).map Report.use

theorem use_report (s : Calculator η) (use : Use) : (report s use).use = use := by
  cases use <;> rfl

/-- A hint is a preview or nothing. -/
theorem previewHint_fst (s : Calculator η) (line : String) :
    (previewHint s line).1 = s ∨
      (previewHint s line).1 = (s.exec (Text.trim line) false).session := by
  unfold previewHint
  simp only
  split
  · exact .inl rfl
  · exact .inr rfl

/-- An idle use leaves nothing behind. -/
theorem agrees_of_idle {s : Calculator η} {use : Use} (h : (report s use).effective = false) :
    Session.Agrees (report s use).session s ∧ (report s use).saved = none := by
  cases use with
  | exec input persist =>
    cases persist with
    | false =>
      obtain ⟨-, -, -, hagrees, hsaved⟩ := Session.exec_false frontend honest_engine s input
      exact ⟨hagrees, hsaved⟩
    | true => exact Session.exec_true_of_failed frontend honest_engine h
  | parse input => exact ⟨.refl s, rfl⟩
  | hint line =>
    refine ⟨?_, rfl⟩
    simp only [report]
    rcases previewHint_fst s line with hs | hs
    · rw [hs]
      exact .refl s
    · rw [hs]
      exact (Session.exec_false frontend honest_engine s (Text.trim line)).2.2.2.1

/-- An effective use leads to the same in calculators that agree. -/
theorem report_congr {s t : Calculator η} {use : Use} (hst : Session.Agrees s t)
    (h : (report s use).effective = true) : report s use = report t use := by
  cases use with
  | exec input persist =>
    cases persist with
    | false => cases h
    | true =>
      have hexec : s.exec input true = t.exec input true := Session.exec_true_congr frontend hst h
      unfold report
      simp only [hexec]
  | parse input => cases h
  | hint line => cases h

/-- Calculators that agree still do so after all uses of the one and the effective ones of
these of the other, and the reports of the latter are those that were effective. -/
theorem agrees_after_effectiveUses {s t : Calculator η} (hst : Session.Agrees s t)
    (uses : List Use) :
    reports t (effectiveUses s uses) = (reports s uses).filter Report.effective ∧
      Session.Agrees (after s uses) (after t (effectiveUses s uses)) := by
  induction uses generalizing s t with
  | nil => exact ⟨rfl, hst⟩
  | cons use uses ih =>
    cases he : (report s use).effective with
    | false =>
      have hrest : effectiveUses s (use :: uses) = effectiveUses (report s use).session uses := by
        simp only [effectiveUses, reports, List.filter_cons, he, Bool.false_eq_true, if_false]
      rw [hrest, reports, List.filter_cons, he]
      exact ih ((agrees_of_idle he).1.trans hst)
    | true =>
      have hrest : effectiveUses s (use :: uses) =
          use :: effectiveUses (report s use).session uses := by
        simp only [effectiveUses, reports, List.filter_cons, he, if_true, List.map_cons,
          use_report]
      have hsame : report s use = report t use := report_congr hst he
      obtain ⟨hreports, hafter⟩ := ih (.refl (report s use).session)
      rw [hrest, reports, reports, List.filter_cons, he, after, after, ← hsame, hreports]
      exact ⟨rfl, hafter⟩

/-- The hooks that became due did so through effective uses. -/
theorem filterMap_saved_effective (s : Calculator η) (uses : List Use) :
    ((reports s uses).filter Report.effective).filterMap Report.saved =
      (reports s uses).filterMap Report.saved := by
  induction uses generalizing s with
  | nil => rfl
  | cons use uses ih =>
    rw [reports, List.filter_cons]
    cases he : (report s use).effective with
    | false =>
      rw [if_neg Bool.false_ne_true, List.filterMap_cons, (agrees_of_idle he).2]
      exact ih _
    | true =>
      rw [if_pos rfl, List.filterMap_cons, List.filterMap_cons, ih]

/-- **Previews are honest and leave nothing behind.**  In every calculator, a preview of a
line reports the same as running the line to persist, leaves the environment, the history
and the variables shown as they are, and makes no hook due.  And from every calculator,
striking out all previews, hints, parsed lines and failed lines of a use leaves the reports
of the remaining lines as they were, the environment, the history and the variables at the
end, and the hooks that became due. -/
theorem previews_leave_no_trace (s : Calculator η) :
    (∀ input,
      let shown := s.exec input false
      let done := s.exec input true
      (shown.ok = done.ok ∧
          shown.session.record.lastResult = done.session.record.lastResult ∧
          shown.session.record.lastError = done.session.record.lastError) ∧
        shown.session.environment = s.environment ∧
        shown.session.record.history = s.record.history ∧
        shown.session.record.bindings = s.record.bindings ∧
        shown.saved = none) ∧
      ∀ uses,
        let rest := effectiveUses s uses
        reports s rest = (reports s uses).filter Report.effective ∧
          (after s rest).environment = (after s uses).environment ∧
          (after s rest).record.history = (after s uses).record.history ∧
          (after s rest).record.bindings = (after s uses).record.bindings ∧
          (reports s rest).filterMap Report.saved = (reports s uses).filterMap Report.saved := by
  refine ⟨fun input => ?_, fun uses => ?_⟩
  · obtain ⟨hok, hresult, herror, hagrees, hsaved⟩ :=
      Session.exec_false frontend honest_engine s input
    exact ⟨⟨hok, hresult, herror⟩, hagrees.environment, hagrees.history, hagrees.bindings, hsaved⟩
  · obtain ⟨hreports, hagrees⟩ := agrees_after_effectiveUses (.refl s) uses
    refine ⟨hreports, hagrees.environment.symm, hagrees.history.symm, hagrees.bindings.symm, ?_⟩
    rw [hreports, filterMap_saved_effective]

end Calculator

end Abacus
