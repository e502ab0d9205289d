import Abacus.Statement.Parser

/-!
# The environment of a calculation

Statements act on an environment: the variables, the format of integer results, and
the save slots, each of which holds the variables of an earlier time.

## Effects

Running a statement answers with a new environment and the text of the result, or
with an error and no environment at all.  Whoever runs the statement decides which
environment is kept, so a preview is nothing but a run whose environment is dropped,
and a failing statement has no effect.
-/

namespace Abacus

/-- What statements read and change. -/
structure Environment where
  /-- The values of the variables. -/
  bindings : Dict Number := .empty
  /-- The format of integer results. -/
  radix : Radix := .dec
  /-- The variables kept by `save`, by slot. -/
  slots : Dict (Dict Number) := .empty

/-- Why a statement has no result. -/
inductive RunError where
  /-- An expression in it has no value. -/
  | eval (e : EvalError)
  /-- Nothing has been saved under this name. -/
  | unknownSlot (name : String)
  /-- The tokens are no statement. -/
  | malformed (e : SyntaxError)
  deriving DecidableEq, Repr

/-- What the user is told. -/
def RunError.message : RunError → String
  | .eval e => e.message
  | .unknownSlot name => s!"no saved state named '{name}'"
  | .malformed e => s!"malformed program: {e.message}"

namespace Environment

instance : Inhabited Environment := ⟨{}⟩

/-- The environment and the result text after a statement. -/
def apply (env : Environment) : Statement → Except RunError (Environment × String)
  | .expr e =>
      match e.eval env.bindings with
      | .ok value => .ok (env, env.radix.render value)
      | .error e => .error (.eval e)
  | .assign name e =>
      match e.eval env.bindings with
      | .ok value =>
          .ok ({ env with bindings := env.bindings.insert name value }, env.radix.render value)
      | .error e => .error (.eval e)
  | .clear => .ok ({ env with bindings := .empty }, "cleared")
  | .save slot =>
      .ok ({ env with slots := env.slots.insert slot env.bindings }, s!"saved {slot}")
  | .load slot =>
      match env.slots.get? slot with
      | some bindings => .ok ({ env with bindings }, s!"loaded {slot}")
      | none => .error (.unknownSlot slot)
  | .output radix => .ok ({ env with radix }, radix.name)

/-- The environment and the result text after the statement that some tokens spell. -/
def run (env : Environment) (ts : List Token) : Except RunError (Environment × String) :=
  match Statement.parse ts with
  | .ok statement => env.apply statement
  | .error e => .error (.malformed e)

/-- Runs tokens and keeps the new environment if `persist` is set and there is one. -/
def execute (env : Environment) (ts : List Token) (persist : Bool) :
    Environment × Except RunError String :=
  match env.run ts with
  | .ok (after, result) => (if persist then after else env, .ok result)
  | .error e => (env, .error e)

/-- Environments agree when their parts do; numbers are compared as numbers. -/
def agrees (a b : Environment) : Bool :=
  a.bindings == b.bindings && a.radix == b.radix && a.slots == b.slots

/-- A preview leaves the environment as it is. -/
theorem execute_preview (env : Environment) (ts : List Token) :
    (env.execute ts false).1 = env := by
  unfold execute
  split <;> rfl

/-- What an execution reports does not depend on whether it is kept. -/
theorem execute_snd (env : Environment) (ts : List Token) (persist : Bool) :
    (env.execute ts persist).2 = (env.run ts).map Prod.snd := by
  unfold execute
  split <;> rename_i h <;> rw [h] <;> rfl

end Environment

end Abacus
