import Abacus.Statement
import Abacus.Expr.Parser

/-!
# From tokens to statements

The first token decides which statement is meant, except that a variable may start an
assignment or an expression; there the second token decides.

A token list ends before its first `ending` token, or where it ends.  The end has a
position too, that of the `ending` token or the byte after the last token, and a
statement that stops too early is reported there.
-/

namespace Abacus.Statement

/-- The tokens before the end. -/
def body (ts : List Token) : List Token :=
  ts.takeWhile fun t => t.kind ≠ .ending

/-- The byte position of the end. -/
def stop (ts : List Token) : Nat :=
  match ts.find? fun t => t.kind = .ending with
  | some t => t.pos
  | none =>
      match ts.getLast? with
      | some t => t.stop
      | none => 0

/-- The first token, which has to be of a certain kind, and the tokens after it. -/
def expect (kind : Token.Kind) (expected : Expected) (stop : Nat) :
    List Token → Except SyntaxError (Token × List Token)
  | [] => .error (.unexpected .ending expected stop)
  | t :: ts => if t.kind = kind then .ok (t, ts) else .error (t.unexpected expected)

/-- Nothing may follow. -/
def expectEnd : List Token → Except SyntaxError Unit
  | [] => .ok ()
  | t :: _ => .error (t.unexpected .ending)

/-- A name in parentheses and the tokens after it. -/
def nameArgument (expected : Expected) (stop : Nat) (ts : List Token) :
    Except SyntaxError (Token × List Token) := do
  let (_, ts) ← expect .openParen .openParen stop ts
  let (name, ts) ← expect .variable expected stop ts
  let (_, ts) ← expect .closeParen .closeParen stop ts
  return (name, ts)

/-- The empty pair of parentheses that `clear` may be written with. -/
def emptyArgument (stop : Nat) (ts : List Token) : Except SyntaxError (List Token) :=
  match ts with
  | t :: ts =>
      if t.kind = .openParen then do
        let (_, ts) ← expect .closeParen .closeParen stop ts
        return ts
      else .ok (t :: ts)
  | [] => .ok []

/-- The statement that some tokens spell, which end at byte `stop`. -/
def parseBody (stop : Nat) (ts : List Token) : Except SyntaxError Statement :=
  match ts with
  | [] => .error .empty
  | t :: rest =>
      match t.kind with
      | .clear => do
          let rest ← emptyArgument stop rest
          expectEnd rest
          return .clear
      | .save => do
          let (slot, rest) ← nameArgument .slotName stop rest
          expectEnd rest
          return .save slot.text
      | .load => do
          let (slot, rest) ← nameArgument .slotName stop rest
          expectEnd rest
          return .load slot.text
      | .output => do
          let (name, rest) ← nameArgument .outputFormat stop rest
          -- An unknown format is reported before anything that may follow.
          match Radix.ofName? name.text with
          | none => .error (.unknownFormat name.text name.pos)
          | some radix =>
              expectEnd rest
              return .output radix
      | .variable =>
          match rest with
          | u :: value =>
              if u.kind = .assign then do
                let e ← Expr.Parser.parse stop value
                return .assign t.text e
              else do
                let e ← Expr.Parser.parse stop ts
                return .expr e
          | [] => do
              let e ← Expr.Parser.parse stop ts
              return .expr e
      | _ => do
          let e ← Expr.Parser.parse stop ts
          return .expr e

/-- The statement that a token list spells. -/
def parse (ts : List Token) : Except SyntaxError Statement :=
  parseBody (stop ts) (body ts)

end Abacus.Statement
