import Abacus.Decimal.Numeral

/-!
# JSON values and their text

What the calculator writes as JSON: snapshots of its state, on one line, and dumps
for the user, one entry a line.  The members of an object keep the order they are
given in.

Strings are written with the escapes that the grammar requires and no others: quote,
backslash and the control characters below the space.
-/

namespace Abacus

/-- JSON values. -/
inductive Json where
  | null
  | number (n : Decimal.Numeral)
  | string (s : String)
  | array (elements : List Json)
  | object (members : List (String × Json))

namespace Json

/-- A natural number as a JSON value. -/
def ofNat (n : Nat) : Json := .number (.ofInt n)

/-- A digit in base sixteen. -/
def hexDigit (n : Nat) : Char := Nat.digitChar n

/-- A character inside a quoted string. -/
def escape (c : Char) : List Char :=
  match c with
  | '"' => ['\\', '"']
  | '\\' => ['\\', '\\']
  | '\x08' => ['\\', 'b']
  | '\x0c' => ['\\', 'f']
  | '\n' => ['\\', 'n']
  | '\r' => ['\\', 'r']
  | '\t' => ['\\', 't']
  | c =>
      if c.toNat < 0x20 then
        ['\\', 'u', '0', '0', hexDigit (c.toNat / 16), hexDigit (c.toNat % 16)]
      else [c]

/-- A quoted string. -/
def quote (s : String) : List Char :=
  '"' :: (s.toList.flatMap escape ++ ['"'])

mutual

/-- The text of a value, on one line and without blanks. -/
def compact : Json → List Char
  | .null => ['n', 'u', 'l', 'l']
  | .number n => n.chars
  | .string s => quote s
  | .array elements => '[' :: (compactElements elements ++ [']'])
  | .object members => '\x7b' :: (compactMembers members ++ ['\x7d'])

/-- The elements of an array, separated by commas. -/
def compactElements : List Json → List Char
  | [] => []
  | [value] => compact value
  | value :: rest => compact value ++ ',' :: compactElements rest

/-- The members of an object, separated by commas. -/
def compactMembers : List (String × Json) → List Char
  | [] => []
  | [(key, value)] => quote key ++ ':' :: compact value
  | (key, value) :: rest => quote key ++ ':' :: (compact value ++ ',' :: compactMembers rest)

end

/-- The start of a line at a depth. -/
def newline (depth : Nat) : List Char :=
  '\n' :: List.replicate (2 * depth) ' '

mutual

/-- The text of a value at a depth, one entry a line. -/
def indented (depth : Nat) : Json → List Char
  | .null => ['n', 'u', 'l', 'l']
  | .number n => n.chars
  | .string s => quote s
  | .array [] => ['[', ']']
  | .array (value :: rest) =>
      '[' :: (indentedElements (depth + 1) (value :: rest) ++ newline depth ++ [']'])
  | .object [] => ['\x7b', '\x7d']
  | .object (member :: rest) =>
      '\x7b' :: (indentedMembers (depth + 1) (member :: rest) ++ newline depth ++ ['\x7d'])

/-- The elements of an array, each on its line. -/
def indentedElements (depth : Nat) : List Json → List Char
  | [] => []
  | [value] => newline depth ++ indented depth value
  | value :: rest =>
      newline depth ++ indented depth value ++ ',' :: indentedElements depth rest

/-- The members of an object, each on its line. -/
def indentedMembers (depth : Nat) : List (String × Json) → List Char
  | [] => []
  | [(key, value)] => newline depth ++ quote key ++ ':' :: ' ' :: indented depth value
  | (key, value) :: rest =>
      newline depth ++ quote key ++ ':' :: ' ' ::
        (indented depth value ++ ',' :: indentedMembers depth rest)

end

/-- The text of a value on one line. -/
def print (value : Json) : String := String.ofList value.compact

/-- The text of a value for a reader. -/
def pretty (value : Json) : String := String.ofList (value.indented 0)

example : print (.object [("a\"b", .array [.null, .string "\x01\n"]), ("c", .object [])]) =
    "\x7b\"a\\\"b\":[null,\"\\u0001\\n\"],\"c\":\x7b\x7d\x7d" := by decide +kernel

end Json

end Abacus
