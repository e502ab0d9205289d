import Abacus.Number.Radix
import Abacus.Expr

/-!
# Statements

A statement is one line of input: an expression to be evaluated, an assignment, or
one of the commands that act on the variables, the save slots and the output format.
-/

namespace Abacus

/-- Statements. -/
inductive Statement where
  /-- Show the value of an expression. -/
  | expr (e : Expr)
  /-- Give a variable the value of an expression. -/
  | assign (name : String) (e : Expr)
  /-- Forget all variables. -/
  | clear
  /-- Keep the variables in a slot. -/
  | save (slot : String)
  /-- Bring back the variables of a slot. -/
  | load (slot : String)
  /-- Show integers in this format from now on. -/
  | output (radix : Radix)
  deriving DecidableEq

end Abacus
