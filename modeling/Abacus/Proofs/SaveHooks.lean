import Abacus.Proofs.SessionRecord

/-!
# Which hooks are called

A session knows at most one hook, the one registered last, and a call on the session makes at
most one hook due.  This module says which calls do: a line that was run to persist, could be
parsed, has a token that saves anywhere, and succeeded, at a time when a hook was registered.
The hook is given a snapshot of the state that this very line left behind.

## Places in a run

Every call on a session has one answer, and the answer says which hook is due.  So what a run
does about hooks is a list with one place for each call.  What stands in a place is decided by
one call, made on the session as the calls before it left it (`getElem?_run`), and who was
registered then can be read off these calls (`hook_run`).  The rest is what one call does
(`saved?_step_eq_some_iff`).
-/

namespace Abacus.Session

variable {σ τ ν η : Type}

/-- The hook that a call registers, if it registers one. -/
def Call.hook? : Call η → Option η
  | .exec _ _ => none
  | .parse _ => none
  | .onSave hook => some hook

/-- The hook that a call has made due, with the snapshot for it. -/
def Answer.saved? : Answer σ τ η → Option (η × String)
  | .executed outcome => outcome.saved
  | .parsed _ => none
  | .registered => none

variable (front : Frontend τ) (engine : Engine σ τ ν)

/-! ## One call -/

theorem saves_iff {tokens : List τ} :
    saves front tokens = true ↔ ∃ t ∈ tokens, front.role t = .save := by
  simp [saves]

/-- A line persists if it was to do so, could be parsed and succeeded. -/
theorem persisted_of_iff {environment : σ} {input : String} {persist : Bool} :
    (Event.of front engine environment input persist).persisted = true ↔
      persist = true ∧ ∃ tokens result, front.parse input = .ok tokens ∧
        (Event.of front engine environment input persist).tokens = tokens ∧
        engine.execute environment tokens persist =
          ((Event.of front engine environment input persist).environment, .ok result) := by
  unfold Event.of
  cases front.parse input with
  | error message => simp [Event.persisted, Event.succeeded, Event.message?]
  | ok tokens =>
    rcases hexecute : engine.execute environment tokens persist with ⟨after, message | result⟩
    · simp [Event.persisted, Event.succeeded, Event.message?, hexecute]
    · simp [Event.persisted, Event.succeeded, Event.message?, hexecute]

/-- A hook becomes due through a line that persists, saves and succeeds, and in no other way. -/
theorem saved?_step_eq_some_iff (s : Session σ η) (c : Call η) (hook : η) (text : String) :
    (step front engine s c).2.saved? = some (hook, text) ↔
      ∃ input tokens result, c = .exec input true ∧ front.parse input = .ok tokens ∧
        (∃ t ∈ tokens, front.role t = .save) ∧
        engine.execute s.environment tokens true =
          ((step front engine s c).1.environment, .ok result) ∧
        s.hook = some hook ∧ text = engine.snapshot (step front engine s c).1.environment := by
  cases c with
  | parse input => simp [step, Answer.saved?]
  | onSave hook => simp [step, Answer.saved?]
  | exec input persist =>
    simp only [step, Answer.saved?, exec_eq_ofEvent, Outcome.ofEvent, ← saves_iff, Call.exec.injEq]
    constructor
    · intro h
      split at h
      next hdue =>
        obtain ⟨hpersisted, hsaves⟩ := Bool.and_eq_true_iff.mp hdue
        obtain ⟨rfl, tokens, result, hparse, htokens, hexecute⟩ :=
          (persisted_of_iff front engine).mp hpersisted
        obtain ⟨hook', hhook, heq⟩ := Option.map_eq_some_iff.mp h
        obtain ⟨rfl, rfl⟩ := Prod.mk.inj heq
        exact ⟨input, tokens, result, ⟨rfl, rfl⟩, hparse, htokens ▸ hsaves, hexecute, hhook, rfl⟩
      next => cases h
    · rintro ⟨input', tokens, result, ⟨rfl, rfl⟩, hparse, hsaves, hexecute, hhook, rfl⟩
      have htokens : (Event.of front engine s.environment input true).tokens = tokens := by
        rw [Event.of, hparse]
      have hpersisted : (Event.of front engine s.environment input true).persisted = true :=
        (persisted_of_iff front engine).mpr ⟨rfl, tokens, result, hparse, htokens, hexecute⟩
      rw [hpersisted, htokens, hsaves, Bool.and_self, if_pos rfl, hhook, Option.map_some]

/-- A call that registers a hook puts it in the place of the former one; no other call touches
the hook. -/
theorem hook_step (s : Session σ η) (c : Call η) :
    (step front engine s c).1.hook = c.hook?.or s.hook := by
  cases c with
  | exec input persist => simp only [step, exec_eq_ofEvent]; rfl
  | parse input => rfl
  | onSave hook => rfl

/-! ## A whole run -/

/-- The hook after some calls is the one they registered last. -/
theorem hook_run (s : Session σ η) (calls : List (Call η)) :
    (run front engine s calls).1.hook = (calls.filterMap Call.hook?).getLast?.or s.hook := by
  induction calls generalizing s with
  | nil => rfl
  | cons c calls ih =>
    have h := ih (step front engine s c).1
    rw [hook_step] at h
    rw [run, h, List.filterMap_cons]
    cases hc : c.hook? with
    | none => simp
    | some hook =>
      cases hlast : (calls.filterMap Call.hook?).getLast? <;> simp [List.getLast?_cons, hlast]

/-- The call in a place of a run is made on the session that the calls before it led to. -/
theorem run_take_succ (s : Session σ η) {calls : List (Call η)} {i : Nat} {c : Call η}
    (h : calls[i]? = some c) :
    (run front engine s (calls.take (i + 1))).1 =
      (step front engine (run front engine s (calls.take i)).1 c).1 := by
  induction calls generalizing s i with
  | nil => simp at h
  | cons d calls ih =>
    cases i with
    | zero =>
      obtain rfl : d = c := by simpa using h
      rfl
    | succ i => exact ih (step front engine s d).1 h

/-- The answer in a place of a run is the answer to the call in that place. -/
theorem getElem?_run (s : Session σ η) (calls : List (Call η)) (i : Nat) :
    (run front engine s calls).2[i]? =
      calls[i]?.map fun c => (step front engine (run front engine s (calls.take i)).1 c).2 := by
  induction calls generalizing s i with
  | nil => rfl
  | cons d calls ih =>
    cases i with
    | zero => rfl
    | succ i => exact ih (step front engine s d).1 i

theorem length_run (s : Session σ η) (calls : List (Call η)) :
    (run front engine s calls).2.length = calls.length := by
  induction calls generalizing s with
  | nil => rfl
  | cons c calls ih => exact congrArg (· + 1) (ih (step front engine s c).1)

/-- Registering hooks makes no events and hides none. -/
theorem events_filter_hook? (environment : σ) (calls : List (Call η)) :
    events front engine environment (calls.filter fun c => c.hook?.isNone) =
      events front engine environment calls := by
  induction calls generalizing environment with
  | nil => rfl
  | cons c calls ih =>
    cases c with
    | exec input persist =>
      exact congrArg (Event.of front engine environment input persist :: ·) (ih _)
    | parse input => exact ih environment
    | onSave hook => exact ih environment

/-- Nor does it execute anything. -/
theorem filterMap_execution?_filter_hook? (calls : List (Call η)) :
    (calls.filter fun c => c.hook?.isNone).filterMap (Call.execution? front) =
      calls.filterMap (Call.execution? front) := by
  induction calls with
  | nil => rfl
  | cons c calls ih =>
    cases c with
    | exec input persist =>
      rw [List.filter_cons_of_pos (by rfl), List.filterMap_cons, List.filterMap_cons, ih]
    | parse input => exact ih
    | onSave hook => exact ih

/-- **Hooks are called once for each line that saves, and after it.**  A run of any calls on a
session makes at most one call to a hook in each place.  It makes one exactly where a line was
run to persist, could be parsed, has a token that saves, and succeeded, if a hook was registered
then; the hook is the one registered last, and it is given a snapshot of the state in which the
line left the session.  Without the calls that register hooks, a run leads to the same record and
to the same state. -/
theorem hooks_called (s : Session σ η) (calls : List (Call η)) :
    let before := fun i => (run front engine s (calls.take i)).1
    let hookCalls := (run front engine s calls).2.map Answer.saved?
    let unhooked := (run front engine s (calls.filter fun c => c.hook?.isNone)).1
    hookCalls.length = calls.length ∧
      (∀ i hook text, hookCalls[i]? = some (some (hook, text)) ↔
        ∃ input tokens result, calls[i]? = some (.exec input true) ∧
          front.parse input = .ok tokens ∧ (∃ t ∈ tokens, front.role t = .save) ∧
          engine.execute (before i).environment tokens true =
            ((before (i + 1)).environment, .ok result) ∧
          ((calls.take i).filterMap Call.hook?).getLast?.or s.hook = some hook ∧
          text = engine.snapshot (before (i + 1)).environment) ∧
      unhooked.record = (run front engine s calls).1.record ∧
      unhooked.environment = (run front engine s calls).1.environment := by
  intro before hookCalls unhooked
  refine ⟨?_, fun i hook text => ?_, ?_, ?_⟩
  · rw [List.length_map, length_run]
  · rw [List.getElem?_map, getElem?_run]
    cases hc : calls[i]? with
    | none => simp
    | some c =>
      have hafter : (step front engine (before i) c).1 = before (i + 1) :=
        (run_take_succ front engine s hc).symm
      have hiff := saved?_step_eq_some_iff front engine (before i) c hook text
      rw [hafter, hook_run] at hiff
      simpa using hiff
  · rw [record_run, record_run, events_filter_hook?]
  · rw [environment_run, environment_run, filterMap_execution?_filter_hook?]

end Abacus.Session
