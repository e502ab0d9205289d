import Abacus.Decimal.Numeral
import Abacus.Text.Digit
import Abacus.Text.Reader

/-!
# Reading JSON

The readers below follow the grammar of JSON: blanks are the four ASCII ones, a comma
has to be followed by another entry, control characters have to be escaped.

## Reading by expectation

What a text means depends on where a value is expected, so the readers of values are
given from outside: `object` takes the reader of a member's value.  A value that
nobody asked for is passed over by `skip`, which checks its form only.

## Strings

An escape can name half of a pair of surrogates.  Such a string has correct form, so
it may be passed over, but it has no text, so it cannot be read.

## Fuel

Loops count down from a number that exceeds the length of the text.  Every turn of a
loop consumes a character, so the count never runs out.
-/

namespace Abacus.Json

open Abacus.Text (Reader digitValue?)

namespace Read

/-- White space between the tokens of JSON. -/
def isSpace (c : Char) : Bool := c == ' ' || c == '\n' || c == '\t' || c == '\r'

/-- The text from the next token on. -/
def skipSpace (cs : List Char) : List Char := cs.dropWhile isSpace

/-- One character, after blanks. -/
def char (c : Char) : Reader Unit := fun cs =>
  match skipSpace cs with
  | d :: cs => if d = c then some ((), cs) else none
  | [] => none

/-- The four digits of a numeric escape. -/
def unit : Reader Nat
  | a :: b :: c :: d :: cs => do
      let a ← digitValue? a
      let b ← digitValue? b
      let c ← digitValue? c
      let d ← digitValue? d
      return (((a * 16 + b) * 16 + c) * 16 + d, cs)
  | _ => none

/-- One character of a string, decoded where it can be: an escape that is half of a
pair without the other half has no character. -/
def stringChar : Reader (Option Char)
  | '\\' :: '"' :: cs => some (some '"', cs)
  | '\\' :: '\\' :: cs => some (some '\\', cs)
  | '\\' :: '/' :: cs => some (some '/', cs)
  | '\\' :: 'b' :: cs => some (some '\x08', cs)
  | '\\' :: 'f' :: cs => some (some '\x0c', cs)
  | '\\' :: 'n' :: cs => some (some '\n', cs)
  | '\\' :: 'r' :: cs => some (some '\r', cs)
  | '\\' :: 't' :: cs => some (some '\t', cs)
  | '\\' :: 'u' :: cs => do
      let (high, rest) ← unit cs
      if 0xD800 ≤ high ∧ high < 0xDC00 then
        -- The first half of a pair; the second has to follow at once.
        match rest with
        | '\\' :: 'u' :: more =>
            match unit more with
            | some (low, more) =>
                if 0xDC00 ≤ low ∧ low < 0xE000 then
                  some
                    (some (Char.ofNat (0x10000 + (high - 0xD800) * 0x400 + (low - 0xDC00))), more)
                else some (none, rest)
            | none => some (none, rest)
        | _ => some (none, rest)
      else if 0xDC00 ≤ high ∧ high < 0xE000 then some (none, rest)
      else some (some (Char.ofNat high), rest)
  | '\\' :: _ => none
  | c :: cs => if c.toNat < 0x20 then none else some (some c, cs)
  | [] => none

/-- The characters up to the closing quote, and whether all of them could be decoded. -/
def stringBody : Nat → Reader (Option (List Char))
  | 0, _ => none
  | _ + 1, '"' :: cs => some (some [], cs)
  | fuel + 1, cs => do
      let (c, cs) ← stringChar cs
      let (tail, cs) ← stringBody fuel cs
      return (c.bind fun c => tail.map (c :: ·), cs)

/-- A string of correct form, with its text if it has one. -/
def stringForm : Reader (Option String) := fun cs =>
  match skipSpace cs with
  | '"' :: cs => (stringBody (cs.length + 1) cs).map fun p => (p.1.map String.ofList, p.2)
  | _ => none

/-- A string with a text. -/
def string : Reader String := fun cs =>
  match stringForm cs with
  | some (some s, cs) => some (s, cs)
  | _ => none

/-- A run of digits, which may not be empty. -/
def digits : Reader (List Char) := Text.Reader.some1 Char.isDigit

/-- The digits before the point: no zero may lead. -/
def wholeDigits : Reader (List Char) := fun cs => do
  let (ds, rest) ← digits cs
  match ds with
  | '0' :: _ :: _ => none
  | _ => return (ds, rest)

/-- The digits after the point, if there is a point. -/
def fractionDigits : Reader (List Char)
  | '.' :: cs => digits cs
  | cs => some ([], cs)

/-- The power of ten, if there is one. -/
def exponentPart : Reader (Option (Bool × List Char)) := fun cs =>
  let signed (cs : List Char) : Option (Option (Bool × List Char) × List Char) :=
    match cs with
    | '+' :: cs => (digits cs).map fun p => (some (false, p.1), p.2)
    | '-' :: cs => (digits cs).map fun p => (some (true, p.1), p.2)
    | cs => (digits cs).map fun p => (some (false, p.1), p.2)
  match cs with
  | 'e' :: cs => signed cs
  | 'E' :: cs => signed cs
  | cs => some (none, cs)

/-- A number without its sign. -/
def unsigned (negative : Bool) : Reader Decimal.Numeral := fun cs => do
  let (whole, cs) ← wholeDigits cs
  let (fraction, cs) ← fractionDigits cs
  let (exponent, cs) ← exponentPart cs
  return ({ negative, whole, fraction, exponent }, cs)

/-- A number. -/
def numeral : Reader Decimal.Numeral := fun cs =>
  match skipSpace cs with
  | '-' :: cs => unsigned true cs
  | cs => unsigned false cs

/-- The entries after the first one of a bracketed list, up to its end.  Each entry is
preceded by a comma. -/
def more {α : Type} (entry : Reader α) (close : Char) : Nat → Reader (List α)
  | 0, _ => none
  | fuel + 1, cs =>
      match skipSpace cs with
      | c :: cs =>
          if c = close then some ([], cs)
          else if c = ',' then do
            let (x, cs) ← entry cs
            let (xs, cs) ← more entry close fuel cs
            return (x :: xs, cs)
          else none
      | [] => none

/-- The entries of a bracketed list, after the opening bracket. -/
def entries {α : Type} (entry : Reader α) (close : Char) : Reader (List α) := fun cs =>
  match skipSpace cs with
  | c :: rest =>
      if c = close then some ([], rest)
      else do
        let (x, cs) ← entry (c :: rest)
        let (xs, cs) ← more entry close (cs.length + 1) cs
        return (x :: xs, cs)
  | [] => none

/-- A key, a colon and what the reader for that key makes of the value. -/
def member {κ α : Type} (key : Reader κ) (value : κ → Reader α) : Reader (κ × α) := fun cs => do
  let (k, cs) ← key cs
  let (_, cs) ← char ':' cs
  let (v, cs) ← value k cs
  return ((k, v), cs)

/-- An object whose members' values are read according to their keys. -/
def object {α : Type} (value : String → Reader α) : Reader (List (String × α)) := fun cs => do
  let (_, cs) ← char '\x7b' cs
  entries (member string value) '\x7d' cs

/-- A value of any kind and meaning, nested at most so deep.  Only its form is
checked. -/
def skip : Nat → Reader Unit
  | 0, _ => none
  | depth + 1, cs =>
      match skipSpace cs with
      | 'n' :: cs => Text.Reader.word ['u', 'l', 'l'] cs
      | 't' :: cs => Text.Reader.word ['r', 'u', 'e'] cs
      | 'f' :: cs => Text.Reader.word ['a', 'l', 's', 'e'] cs
      | '"' :: cs => (stringForm ('"' :: cs)).map fun p => ((), p.2)
      | '[' :: cs => (entries (skip depth) ']' cs).map fun p => ((), p.2)
      | '\x7b' :: cs =>
          (entries (member stringForm fun _ => skip depth) '\x7d' cs).map fun p => ((), p.2)
      | cs => (numeral cs).map fun p => ((), p.2)

/-- A value that is passed over. -/
def ignored : Reader Unit := fun cs => skip (cs.length + 1) cs

/-- The value that makes up the whole text. -/
def all {α : Type} (reader : Reader α) (s : String) : Option α :=
  match reader s.toList with
  | some (x, cs) => if (skipSpace cs).isEmpty then some x else none
  | none => none

end Read

end Abacus.Json
