/-!
# Tokens

A token is a piece of the input with a kind and the byte position at which it starts.
The list of tokens of an input ends with a token of kind `ending`, whose text is
empty.

A token list can also be handed to the parser from elsewhere, without an `ending`
token or with one in the middle.  What follows an `ending` token is not looked at.
-/

namespace Abacus

namespace Token

/-- The kinds of token. -/
inductive Kind where
  | ending
  | assign
  | openParen
  | closeParen
  | number
  | variable
  | add
  | sub
  | mul
  | pow
  | div
  | floorDiv
  | and
  | or
  | xor
  | complement
  | mod
  | shiftLeft
  | shiftRight
  | abs
  | output
  | save
  | load
  | clear
  deriving DecidableEq, Repr

namespace Kind

/-- All kinds. -/
def all : List Kind :=
  [.ending, .assign, .openParen, .closeParen, .number, .variable, .add, .sub, .mul, .pow, .div,
   .floorDiv, .and, .or, .xor, .complement, .mod, .shiftLeft, .shiftRight, .abs, .output, .save,
   .load, .clear]

/-- The name under which a kind is listed to the user. -/
def name : Kind → String
  | .ending => "Eof"
  | .assign => "Assign"
  | .openParen => "LParen"
  | .closeParen => "RParen"
  | .number => "Number"
  | .variable => "Variable"
  | .add => "Add"
  | .sub => "Sub"
  | .mul => "Mult"
  | .pow => "Exp"
  | .div => "Div"
  | .floorDiv => "Fdiv"
  | .and => "And"
  | .or => "Or"
  | .xor => "Xor"
  | .complement => "Inv"
  | .mod => "Mod"
  | .shiftLeft => "LShift"
  | .shiftRight => "RShift"
  | .abs => "Abs"
  | .output => "SetOutput"
  | .save => "Save"
  | .load => "Load"
  | .clear => "Clear"

/-- The kind listed under a name. -/
def ofName? (s : String) : Option Kind :=
  all.find? fun k => k.name == s

/-- The groups that highlighting tells apart. -/
inductive Group where
  | value
  | operator
  | function
  | other
  deriving DecidableEq, Repr

/-- The group of a kind. -/
def group : Kind → Group
  | .number | .variable => .value
  | .add | .sub | .mul | .pow | .div | .floorDiv | .and | .or | .xor | .complement | .mod
  | .shiftLeft | .shiftRight => .operator
  | .abs | .output | .save | .load | .clear => .function
  | .ending | .assign | .openParen | .closeParen => .other

/-- The kind of a word that names a function. -/
def ofKeyword? : String → Option Kind
  | "abs" => some .abs
  | "output" => some .output
  | "save" => some .save
  | "load" => some .load
  | "clear" => some .clear
  | _ => none

theorem ofName?_name (k : Kind) : ofName? k.name = some k := by
  cases k <;> decide

end Kind

end Token

/-- A piece of the input. -/
structure Token where
  /-- What the piece is. -/
  kind : Token.Kind
  /-- The byte position of its start. -/
  pos : Nat
  /-- The piece itself; empty for `ending`. -/
  text : String
  deriving DecidableEq, Repr

end Abacus
