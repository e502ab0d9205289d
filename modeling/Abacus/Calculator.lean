import Abacus.Token.Lexer
import Abacus.Snapshot
import Abacus.Session

/-!
# The calculator

The session of this calculator: lines are statements, and the state is an environment.

A line is parsed to its tokens; that it is a statement is checked at the same time,
so what a session runs has passed the parser before.
-/

namespace Abacus

/-- A session over environments, with hooks named by `η`. -/
abbrev Calculator (η : Type) := Session Environment η

namespace Calculator

variable {η : Type}

/-- The tokens of a line that is a statement. -/
def parse (input : String) : Except SyntaxError (List Token) :=
  match Token.tokenize input with
  | .error e => .error e
  | .ok ts =>
      match Statement.parse ts with
      | .error e => .error e
      | .ok _ => .ok ts

/-- The role of a token. -/
def role (t : Token) : Role :=
  match t.kind with
  | .clear => .clear
  | .save => .save
  | _ => .plain

/-- Lines are statements. -/
def frontend : Frontend Token where
  parse input := (parse input).mapError SyntaxError.message
  role := role

/-- Statements act on an environment. -/
def engine : Engine Environment Token Number where
  execute env ts persist :=
    let (env, result) := env.execute ts persist
    (env, result.mapError RunError.message)
  bindings env := env.bindings
  display := Number.text
  snapshot := Snapshot.write

/-- A new session that starts from a seed. -/
def start (seed : String) : Calculator η :=
  { environment := Snapshot.seeded seed }

/-- Runs a line. -/
def exec (s : Calculator η) (input : String) (persist : Bool) : Session.Outcome Environment η :=
  Session.exec frontend engine s input persist

end Calculator

end Abacus
