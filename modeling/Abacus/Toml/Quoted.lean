/-!
# Quoting strings

A string can be quoted in four ways: between double quotes, where backslashes
introduce escapes, or between single quotes, where every character stands for itself;
and each of them on one line or, with three quotes, on several.

The way is chosen so that the string can be read as it stands.  The first of these
that needs no escape is taken:

* double quotes;
* single quotes;
* three double quotes;
* three single quotes.

If all of them would need one, double quotes are used, three if the string has several
lines, and what cannot stand for itself is escaped.
-/

namespace Abacus.Toml

/-- What about a string decides how it can be quoted. -/
structure Traits where
  /-- A control character other than tab and line feed. -/
  control : Bool
  backslash : Bool
  lineFeed : Bool
  /-- The longest run of double quotes. -/
  doubleQuotes : Nat
  /-- The longest run of single quotes. -/
  singleQuotes : Nat
  deriving DecidableEq, Repr

/-- A control character that has to be escaped. -/
def isControl (c : Char) : Bool :=
  (c.toNat < 0x20 && c != '\t' && c != '\n') || c.toNat == 0x7F

/-- The longest run of a character, where the text is preceded by a run of `current`
and the longest run so far is `best`. -/
def longestRunFrom (q : Char) (current best : Nat) : List Char → Nat
  | [] => max current best
  | c :: cs =>
      if c = q then longestRunFrom q (current + 1) best cs
      else longestRunFrom q 0 (max current best) cs

/-- The longest run of a character. -/
def longestRun (q : Char) (cs : List Char) : Nat := longestRunFrom q 0 0 cs

/-- The traits of a string. -/
def Traits.ofChars (cs : List Char) : Traits where
  control := cs.any isControl
  backslash := cs.contains '\\'
  lineFeed := cs.contains '\n'
  doubleQuotes := longestRun '"' cs
  singleQuotes := longestRun '\'' cs

/-- The ways of quoting. -/
inductive Quoting where
  | basic
  | literal
  | basicLines
  | literalLines
  deriving DecidableEq, Repr

/-- Double quotes suffice without escapes. -/
def Traits.allowsBasic (t : Traits) : Bool :=
  !t.control && !t.backslash && t.doubleQuotes == 0 && !t.lineFeed

/-- Single quotes suffice. -/
def Traits.allowsLiteral (t : Traits) : Bool :=
  !t.control && t.singleQuotes == 0 && !t.lineFeed

/-- The way in which a value is quoted. -/
def Traits.quoting (t : Traits) : Quoting :=
  if t.allowsBasic then .basic
  else if t.allowsLiteral then .literal
  else if !t.control && !t.backslash && t.doubleQuotes ≤ 2 then .basicLines
  else if !t.control && t.singleQuotes ≤ 2 then .literalLines
  else if t.lineFeed then .basicLines
  else .basic

/-- The way in which a key is quoted. -/
def Traits.keyQuoting (t : Traits) : Quoting :=
  if t.allowsBasic then .basic else if t.allowsLiteral then .literal else .basic

/-- A digit in base sixteen. -/
def upperHex (n : Nat) : Char := (Nat.digitChar n).toUpper

/-- A character between double quotes, other than a double quote. -/
def escapeChar (lines : Bool) (c : Char) : List Char :=
  match c with
  | '\x08' => ['\\', 'b']
  | '\t' => ['\\', 't']
  | '\n' => if lines then ['\n'] else ['\\', 'n']
  | '\x0c' => ['\\', 'f']
  | '\r' => ['\\', 'r']
  | '\\' => ['\\', '\\']
  | c =>
      if isControl c then
        ['\\', 'u', '0', '0', upperHex (c.toNat / 16), upperHex (c.toNat % 16)]
      else [c]

/-- The characters between double quotes, after a run of `quotes` double quotes.  On
several lines two quotes in a row may stand for themselves. -/
def escapeFrom (lines : Bool) (quotes : Nat) : List Char → List Char
  | [] => []
  | '"' :: cs =>
      if quotes < (if lines then 2 else 0) then '"' :: escapeFrom lines (quotes + 1) cs
      else '\\' :: '"' :: escapeFrom lines 0 cs
  | c :: cs => escapeChar lines c ++ escapeFrom lines 0 cs

/-- A string quoted in a way.  On several lines a line feed after the opening quotes
does not belong to the string, so one is written before a string that has lines. -/
def quoteAs (q : Quoting) (cs : List Char) : List Char :=
  let start := if cs.contains '\n' then ['\n'] else []
  match q with
  | .basic => '"' :: (escapeFrom false 0 cs ++ ['"'])
  | .literal => '\'' :: (cs ++ ['\''])
  | .basicLines => ['"', '"', '"'] ++ start ++ escapeFrom true 0 cs ++ ['"', '"', '"']
  | .literalLines => ['\'', '\'', '\''] ++ start ++ cs ++ ['\'', '\'', '\'']

/-- A quoted value. -/
def quote (s : String) : List Char :=
  quoteAs (Traits.ofChars s.toList).quoting s.toList

/-- A character of a key without quotes. -/
def isBareKeyChar (c : Char) : Bool := c.isAlphanum || c == '_' || c == '-'

/-- A key, quoted if it has to be. -/
def quoteKey (key : String) : List Char :=
  let cs := key.toList
  if !cs.isEmpty && cs.all isBareKeyChar then cs
  else quoteAs (Traits.ofChars cs).keyQuoting cs

end Abacus.Toml
