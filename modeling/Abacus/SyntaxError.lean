/-!
# Faults of the input

What can be wrong with an input before it is run.  Each fault carries the byte
position it was found at, except that an input without any token has no position to
point to.
-/

namespace Abacus

/-- What the parser met where it wanted something else. -/
inductive Found where
  /-- A token with this text. -/
  | token (text : String)
  /-- The end of the input. -/
  | ending
  deriving DecidableEq, Repr

/-- How it is quoted. -/
def Found.text : Found → String
  | .token text => s!"'{text}'"
  | .ending => "end of input"

/-- What the parser wanted. -/
inductive Expected where
  | expression
  | openParen
  | closeParen
  | slotName
  | outputFormat
  | ending
  deriving DecidableEq, Repr

/-- How it is named. -/
def Expected.text : Expected → String
  | .expression => "expression"
  | .openParen => "'('"
  | .closeParen => "')'"
  | .slotName => "slot name"
  | .outputFormat => "output format"
  | .ending => "end of input"

/-- Why an input is not a statement. -/
inductive SyntaxError where
  /-- There is no token. -/
  | empty
  /-- No token starts with this character. -/
  | unexpectedChar (char : Char) (pos : Nat)
  /-- The text starts like a number and is none. -/
  | invalidNumber (text : String) (pos : Nat)
  /-- The tokens stop making a statement here. -/
  | unexpected (found : Found) (expected : Expected) (pos : Nat)
  /-- There is no output format of this name. -/
  | unknownFormat (name : String) (pos : Nat)
  deriving DecidableEq, Repr

/-- What the user is told. -/
def SyntaxError.message : SyntaxError → String
  | .empty => "nothing to evaluate"
  | .unexpectedChar char pos =>
      s!"unexpected character '{String.singleton char}' at position {pos}"
  | .invalidNumber text pos => s!"invalid number '{text}' at position {pos}"
  | .unexpected found expected pos =>
      s!"unexpected {found.text} at position {pos}; expected {expected.text}"
  | .unknownFormat name pos =>
      s!"unknown output format '{name}' at position {pos}; expected dec, hex, oct or bin"

end Abacus
