import Abacus.Text.Bytes
import Abacus.Token
import Abacus.SyntaxError
import Abacus.Number.Literal
import Abacus.Expr

/-!
# From tokens to expressions

The binary operators bind in seven levels, from `|`, the weakest, over `^`, `&`, the
shifts, the sums and the products to `**`.  Within a level they associate to the left,
except that `**` associates to the right.  The signs `-`, `+` and `~` bind between the
products and `**`, so `-2 ** 2` is `-(2 ** 2)`; yet the right operand of `**` may start
with a sign.

## Reading with a stack

The parser reads each token once.  What has been begun and not finished stands on a
stack of *frames*: a sign waiting for its operand, an operator waiting for its right
operand, an open parenthesis.  Between tokens the parser is in one of three states.
It waits for an operand, or for the parenthesis after `abs`, or it holds a complete
operand and waits for an operator, a closing parenthesis or the end.

An operand between two operators belongs to the one that binds it more strongly.  So
when an operator arrives, `settle` finishes the frames that bind the operand more
strongly than the arriving operator does.

## Why states and not nested calls

The parser is a fold of `step` over the tokens.  A fault depends only on the state
and on the token at hand, so what the tokens after a fault are can never matter, and
whatever a state still needs can be read off its stack.
-/

namespace Abacus

/-- The binding level of a binary operator; a higher level binds more strongly. -/
def BinaryOp.level : BinaryOp → Nat
  | .or => 1
  | .xor => 2
  | .and => 3
  | .shiftLeft | .shiftRight => 4
  | .add | .sub => 5
  | .mul | .div | .floorDiv | .mod => 6
  | .pow => 8

/-- How strongly an operator binds the operand on its left. -/
def BinaryOp.leftStrength (op : BinaryOp) : Nat := 2 * op.level

/-- How strongly an operator binds the operand on its right: a little more than on its
left, which makes equal operators associate to the left, and for `**` a little less. -/
def BinaryOp.rightStrength (op : BinaryOp) : Nat :=
  if op = .pow then 2 * op.level - 1 else 2 * op.level + 1

/-- How strongly a sign binds its operand. -/
def UnaryOp.strength : Nat := 14

/-- The binary operator that a token of this kind stands for. -/
def BinaryOp.ofKind? : Token.Kind → Option BinaryOp
  | .add => some .add
  | .sub => some .sub
  | .mul => some .mul
  | .div => some .div
  | .floorDiv => some .floorDiv
  | .mod => some .mod
  | .pow => some .pow
  | .and => some .and
  | .or => some .or
  | .xor => some .xor
  | .shiftLeft => some .shiftLeft
  | .shiftRight => some .shiftRight
  | _ => none

/-- The byte position after a token. -/
def Token.stop (t : Token) : Nat := t.pos + Text.size t.text

/-- A token stands where something else was wanted. -/
def Token.unexpected (t : Token) (expected : Expected) : SyntaxError :=
  .unexpected (.token t.text) expected t.pos

namespace Expr.Parser

/-- A construction that has been begun and waits for an expression. -/
inductive Frame where
  /-- A sign and its operand to come. -/
  | unary (op : UnaryOp)
  /-- An operator with its left operand, and its right operand to come. -/
  | binary (op : BinaryOp) (left : Expr)
  /-- An open parenthesis. -/
  | group
  /-- The open parenthesis after `abs`. -/
  | absolute
  deriving DecidableEq

/-- Where the parser stands between two tokens. -/
inductive State where
  /-- An operand has to come. -/
  | operand (stack : List Frame)
  /-- The parenthesis after `abs` has to come. -/
  | argument (stack : List Frame)
  /-- The operand `e` is complete, and something has to follow it or the end. -/
  | operator (stack : List Frame) (e : Expr)
  deriving DecidableEq

/-- Finishes the signs and operators on the stack that bind the operand `e` more
strongly than `limit`. -/
def settle (limit : Nat) : List Frame → Expr → List Frame × Expr
  | .unary op :: stack, e =>
      if limit < UnaryOp.strength then settle limit stack (.unary op e)
      else (.unary op :: stack, e)
  | .binary op left :: stack, e =>
      if limit < op.rightStrength then settle limit stack (.binary op left e)
      else (.binary op left :: stack, e)
  | stack, e => (stack, e)

/-- One token. -/
def step (state : State) (t : Token) : Except SyntaxError State :=
  match state with
  | .operand stack =>
      match t.kind with
      | .number =>
          match Literal.read? t.text with
          | some value => .ok (.operator stack (.number value))
          | none => .error (.invalidNumber t.text t.pos)
      | .variable => .ok (.operator stack (.variable t.text))
      | .sub => .ok (.operand (.unary .negate :: stack))
      | .add => .ok (.operand stack)
      | .complement => .ok (.operand (.unary .complement :: stack))
      | .openParen => .ok (.operand (.group :: stack))
      | .abs => .ok (.argument stack)
      | _ => .error (t.unexpected .expression)
  | .argument stack =>
      if t.kind = .openParen then .ok (.operand (.absolute :: stack))
      else .error (t.unexpected .openParen)
  | .operator stack e =>
      match BinaryOp.ofKind? t.kind with
      | some op =>
          let (stack, left) := settle op.leftStrength stack e
          .ok (.operand (.binary op left :: stack))
      | none =>
          -- Only a parenthesis may end the operand here, and only if one is open.
          match settle 0 stack e with
          | (.group :: stack, e) =>
              if t.kind = .closeParen then .ok (.operator stack e)
              else .error (t.unexpected .closeParen)
          | (.absolute :: stack, e) =>
              if t.kind = .closeParen then .ok (.operator stack (.unary .absolute e))
              else .error (t.unexpected .closeParen)
          | _ => .error (t.unexpected .ending)

/-- The end of the tokens, at byte `stop`. -/
def finish (stop : Nat) : State → Except SyntaxError Expr
  | .operand _ => .error (.unexpected .ending .expression stop)
  | .argument _ => .error (.unexpected .ending .openParen stop)
  | .operator stack e =>
      match settle 0 stack e with
      | ([], e) => .ok e
      | _ => .error (.unexpected .ending .closeParen stop)

/-- All tokens of a list. -/
def run (state : State) : List Token → Except SyntaxError State
  | [] => .ok state
  | t :: ts =>
      match step state t with
      | .ok state => run state ts
      | .error e => .error e

/-- The expression that the tokens spell, which end at byte `stop`. -/
def parse (stop : Nat) (ts : List Token) : Except SyntaxError Expr :=
  match run (.operand []) ts with
  | .ok state => finish stop state
  | .error e => .error e

/-- Reading a list and then another is reading both together. -/
theorem run_append (state : State) (ts us : List Token) :
    run state (ts ++ us) =
      match run state ts with
      | .ok state => run state us
      | .error e => .error e := by
  induction ts generalizing state with
  | nil => rfl
  | cons t ts ih =>
      simp only [List.cons_append, run]
      cases step state t with
      | ok state => exact ih state
      | error e => rfl

end Expr.Parser

end Abacus
