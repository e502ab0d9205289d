import Abacus.Session

/-!
# Calls on a session

The owner of a session can do three things with it: run a line, parse a line without
running it, and register a hook.  This module names them as *calls*, so that a whole
use of a session is a list of calls and what it leads to is a function of that list.

Parsing is for looking at a line, as highlighting does.  It takes the front end alone;
neither the record nor the engine has a part in it.
-/

namespace Abacus.Session

variable {σ τ ν η : Type}

/-- What parsing a line answers.  Beside an error there are no tokens. -/
structure Parsed (τ : Type) where
  tokens : List τ
  error : Option String
  deriving DecidableEq, Repr

/-- Parses a line. -/
def parse (front : Frontend τ) (input : String) : Parsed τ :=
  match front.parse input with
  | .ok tokens => { tokens, error := none }
  | .error message => { tokens := [], error := some message }

/-- A call on a session whose hooks are named by `η`. -/
inductive Call (η : Type) where
  /-- Runs a line, to persist or not. -/
  | exec (input : String) (persist : Bool)
  /-- Parses a line. -/
  | parse (input : String)
  /-- Registers a hook. -/
  | onSave (hook : η)
  deriving DecidableEq, Repr

/-- What a call answers. -/
inductive Answer (σ τ η : Type) where
  | executed (outcome : Outcome σ η)
  | parsed (answer : Parsed τ)
  | registered

/-- A new session. -/
def start (environment : σ) : Session σ η := { environment }

/-- The session after a call, and the answer. -/
def step (front : Frontend τ) (engine : Engine σ τ ν) (s : Session σ η) :
    Call η → Session σ η × Answer σ τ η
  | .exec input persist =>
      let outcome := exec front engine s input persist
      (outcome.session, .executed outcome)
  | .parse input => (s, .parsed (parse front input))
  | .onSave hook => (s.onSave hook, .registered)

/-- The session after some calls, and the answers. -/
def run (front : Frontend τ) (engine : Engine σ τ ν) (s : Session σ η) :
    List (Call η) → Session σ η × List (Answer σ τ η)
  | [] => (s, [])
  | c :: cs =>
      let (next, answer) := step front engine s c
      let (last, answers) := run front engine next cs
      (last, answer :: answers)

end Abacus.Session
