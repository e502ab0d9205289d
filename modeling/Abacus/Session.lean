import Abacus.Dict

/-!
# Sessions

A session takes one line of input after another, runs it, and keeps a record that a
front end can show: the last result, the last error, the history and the variables.

## What a session is built from

The session does not know the language of its inputs.  A `Frontend` turns a line into
tokens, of which the session only asks whether they clear or save.  An `Engine` runs
tokens against a state of its own.  Both are given as records of functions, so
everything said here holds for every language.

## When something becomes visible

A line is parsed, then executed, and only then recorded, and recorded as a whole.

* A failing line leaves its message as the last error and changes nothing else.
* A successful line leaves its result and no error.
* If the line was also meant to persist, it enters the history, and the variables
  shown become those of the engine at that moment.  A line whose first token clears
  empties the history instead, its own entry included.

## Saving

A line that persisted and has a saving token anywhere triggers the hook of the
session, if there is one.  A hook is only a name here; the outcome of a line says
which hook is due and with which snapshot, and the caller acts on it.
-/

namespace Abacus

/-- What a session has to know about a token. -/
inductive Role where
  /-- It resets the history when it comes first. -/
  | clear
  /-- It triggers the hook. -/
  | save
  /-- Neither. -/
  | plain
  deriving DecidableEq, Repr

/-- How lines turn into tokens `τ`. -/
structure Frontend (τ : Type) where
  /-- The tokens of a line, or what is wrong with it. -/
  parse : String → Except String (List τ)
  /-- The role of a token. -/
  role : τ → Role

/-- How tokens `τ` are run against a state `σ` whose variables have values `ν`. -/
structure Engine (σ τ ν : Type) where
  /-- The state after running tokens and the result, or what went wrong.  The flag
  asks for the effects to be kept. -/
  execute : σ → List τ → Bool → σ × Except String String
  /-- The variables of a state. -/
  bindings : σ → Dict ν
  /-- The text of a value. -/
  display : ν → String
  /-- A state written down. -/
  snapshot : σ → String

namespace Session

/-- A line and its result. -/
structure Entry where
  input : String
  result : String
  deriving DecidableEq, Repr

/-- What a session shows. -/
structure Record where
  /-- What was wrong with the last line, if anything was. -/
  lastError : Option String := none
  /-- The result of the last line that had one. -/
  lastResult : String := ""
  /-- The lines that persisted since the last one that cleared, newest first. -/
  history : List Entry := []
  /-- The variables after the last line that persisted. -/
  bindings : Dict String := .empty

instance : Inhabited Record := ⟨{}⟩

end Session

/-- A session whose engine has states `σ` and whose hooks are named by `η`. -/
structure Session (σ η : Type) where
  /-- The state of the engine. -/
  environment : σ
  /-- What the session shows. -/
  record : Session.Record := {}
  /-- The hook registered last. -/
  hook : Option η := none

namespace Session

variable {σ τ ν η : Type}

/-- What a line leads to. -/
structure Outcome (σ η : Type) where
  /-- The session after the line. -/
  session : Session σ η
  /-- Whether the line succeeded. -/
  ok : Bool
  /-- The hook that is due, with the snapshot for it. -/
  saved : Option (η × String)

/-- The record after a line that failed. -/
def Record.fail (r : Record) (message : String) : Record :=
  { r with lastError := some message }

/-- The record after a line that succeeded. -/
def Record.succeed (r : Record) (result : String) : Record :=
  { r with lastError := none, lastResult := result }

/-- The record after a line that persisted. -/
def Record.commit (r : Record) (clears : Bool) (entry : Entry) (bindings : Dict String) :
    Record :=
  { r with history := if clears then [] else entry :: r.history, bindings }

/-- Whether a line with these tokens clears the history. -/
def clears (front : Frontend τ) (tokens : List τ) : Bool :=
  (tokens.head?.map front.role) == some .clear

/-- Whether a line with these tokens saves. -/
def saves (front : Frontend τ) (tokens : List τ) : Bool :=
  tokens.any fun t => front.role t == .save

/-- Registers a hook in place of the former one. -/
def onSave (s : Session σ η) (hook : η) : Session σ η :=
  { s with hook := some hook }

/-- Runs a line. -/
def exec (front : Frontend τ) (engine : Engine σ τ ν) (s : Session σ η) (input : String)
    (persist : Bool) : Outcome σ η :=
  match front.parse input with
  | .error message => { session := { s with record := s.record.fail message }
                        ok := false, saved := none }
  | .ok tokens =>
      match engine.execute s.environment tokens persist with
      | (environment, .error message) =>
          { session := { s with environment, record := s.record.fail message }
            ok := false, saved := none }
      | (environment, .ok result) =>
          let record := s.record.succeed result
          if persist then
            let bindings := (engine.bindings environment).map engine.display
            let record := record.commit (clears front tokens) ⟨input, result⟩ bindings
            { session := { s with environment, record }
              ok := true
              saved :=
                if saves front tokens then s.hook.map fun h => (h, engine.snapshot environment)
                else none }
          else { session := { s with environment, record }, ok := true, saved := none }

/-- Whether the last line did not fail. -/
def isOk (s : Session σ η) : Bool := s.record.lastError.isNone

/-- A line succeeds exactly when it leaves no error. -/
theorem ok_eq_isOk (front : Frontend τ) (engine : Engine σ τ ν) (s : Session σ η)
    (input : String) (persist : Bool) :
    (exec front engine s input persist).ok = (exec front engine s input persist).session.isOk := by
  unfold exec
  split
  · rfl
  · split
    · rfl
    · split <;> rfl

end Session

end Abacus
