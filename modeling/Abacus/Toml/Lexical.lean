import Abacus.Text.Digit
import Abacus.Text.Reader
import Abacus.Number
import Abacus.Decimal.Nearest
import Abacus.Toml

/-!
# The words of a settings file

Readers for everything in a settings file that has no structure of its own: blanks,
comments, keys, strings, numbers, dates and times.

A line ends with a line feed, which a carriage return may precede; a carriage return
anywhere else is a fault, and so is any other control character but the tab.

Numbers may have single underscores between their digits.  Integers have to fit into a
signed word of 64 bits.  A decimal is read as the nearest double; one beyond the range
of doubles is a fault if it is positive.
-/

namespace Abacus.Toml.Lexical

open Abacus.Text (Reader readNat?)
open Abacus.Text.Reader (exactly some1 word)

/-- A blank within a line. -/
def isSpace (c : Char) : Bool := c == ' ' || c == '\t'

/-- A character that may stand in a comment. -/
def isText (c : Char) : Bool := c == '\t' || (0x20 ≤ c.toNat && c.toNat != 0x7F)

/-- The text without the blanks it starts with. -/
def skipSpaces (cs : List Char) : List Char := cs.dropWhile isSpace

/-- The text after the end of the line that it starts with. -/
def afterNewline? : List Char → Option (List Char)
  | '\n' :: cs => some cs
  | '\r' :: '\n' :: cs => some cs
  | _ => none

/-- What may follow on a line: blanks and a comment. -/
def restOfLine : Reader Unit := fun cs =>
  let cs := match skipSpaces cs with
    | '#' :: cs => cs.dropWhile isText
    | cs => cs
  match cs with
  | [] => some ((), [])
  | cs => (afterNewline? cs).map fun cs => ((), cs)

/-- The text after blanks, line ends and whole comments.  The flag says whether the text
starts inside a comment. -/
def skipFillerFrom (comment : Bool) : List Char → Option (List Char)
  | [] => if comment then none else some []
  | '\n' :: cs => skipFillerFrom false cs
  | '\r' :: '\n' :: cs => skipFillerFrom false cs
  | c :: cs =>
      if comment then (if isText c then skipFillerFrom true cs else none)
      else if isSpace c then skipFillerFrom false cs
      else if c = '#' then skipFillerFrom true cs
      else some (c :: cs)

/-- The text after blanks, line ends and whole comments. -/
def skipFiller (cs : List Char) : Option (List Char) := skipFillerFrom false cs

/-! ## Strings -/

/-- A digit in base sixteen. -/
def isHexDigit (c : Char) : Bool := (Text.digitValue? c).isSome

/-- A character given by its code point in so many digits. -/
def codePoint (width : Nat) : Reader Char := fun cs => do
  let (ds, cs) ← exactly isHexDigit width cs
  let n ← readNat? 16 ds
  if n.isValidChar then some (Char.ofNat n, cs) else none

/-- What follows a backslash. -/
def escape : Reader Char
  | 'b' :: cs => some ('\x08', cs)
  | 't' :: cs => some ('\t', cs)
  | 'n' :: cs => some ('\n', cs)
  | 'f' :: cs => some ('\x0c', cs)
  | 'r' :: cs => some ('\r', cs)
  | '"' :: cs => some ('"', cs)
  | '\\' :: cs => some ('\\', cs)
  | 'u' :: cs => codePoint 4 cs
  | 'U' :: cs => codePoint 8 cs
  | _ => none

/-- The characters up to the closing double quote. -/
def basicChars : Nat → Reader (List Char)
  | 0, _ => none
  | _ + 1, [] => none
  | _ + 1, '"' :: cs => some ([], cs)
  | fuel + 1, '\\' :: cs => do
      let (c, cs) ← escape cs
      let (tail, cs) ← basicChars fuel cs
      return (c :: tail, cs)
  | fuel + 1, c :: cs =>
      if isText c then (basicChars fuel cs).map fun r => (c :: r.1, r.2) else none

/-- The characters up to the closing single quote. -/
def literalChars : Reader (List Char) := fun cs =>
  match cs.dropWhile fun c => isText c && c != '\'' with
  | '\'' :: rest => some (cs.takeWhile fun c => isText c && c != '\'', rest)
  | _ => none

/-- A run of quotes in a string of several lines.  Up to two of them belong to the
string.  Three end it, and up to two more in front of these belong to it. -/
inductive QuoteRun where
  | inside (n : Nat)
  | closing (n : Nat)
  | tooLong

/-- What a run of so many quotes means. -/
def QuoteRun.ofLength (n : Nat) : QuoteRun :=
  if n ≤ 2 then .inside n else if n ≤ 5 then .closing (n - 3) else .tooLong

/-- After a backslash at the end of a line: the text after the blanks and line ends that
follow. -/
def continued? (cs : List Char) : Option (List Char) :=
  (afterNewline? (skipSpaces cs)).map skipLines
where
  /-- Blanks and line ends. -/
  skipLines : List Char → List Char
    | [] => []
    | '\r' :: '\n' :: cs => skipLines cs
    | c :: cs => if isSpace c || c == '\n' then skipLines cs else c :: cs

/-- The characters up to three closing quotes.  Escapes count only between double
quotes. -/
def lineChars (quote : Char) : Nat → Reader (List Char)
  | 0, _ => none
  | _ + 1, [] => none
  | fuel + 1, c :: cs =>
      if c = quote then
        let run := cs.takeWhile (· == quote)
        let rest := cs.dropWhile (· == quote)
        match QuoteRun.ofLength (run.length + 1) with
        | .inside n =>
            (lineChars quote fuel rest).map fun r => (List.replicate n quote ++ r.1, r.2)
        | .closing n => some (List.replicate n quote, rest)
        | .tooLong => none
      else if c = '\\' ∧ quote = '"' then
        match continued? cs with
        | some cs => lineChars quote fuel cs
        | none => do
            let (d, cs) ← escape cs
            let (tail, cs) ← lineChars quote fuel cs
            return (d :: tail, cs)
      else
        match afterNewline? (c :: cs) with
        | some cs => (lineChars quote fuel cs).map fun r => ('\n' :: r.1, r.2)
        | none =>
            if isText c then (lineChars quote fuel cs).map fun r => (c :: r.1, r.2) else none

/-- A string of several lines, after its opening quotes.  A line end right after them
does not belong to it. -/
def lines (quote : Char) : Reader (List Char) := fun cs =>
  let cs := (afterNewline? cs).getD cs
  lineChars quote (cs.length + 1) cs

/-- A string on one line, after its opening quote. -/
def singleLine (quote : Char) : Reader (List Char) := fun cs =>
  if quote = '"' then basicChars (cs.length + 1) cs else literalChars cs

/-- A string. -/
def string : Reader String := fun cs =>
  let read := match cs with
    | '"' :: '"' :: '"' :: cs => lines '"' cs
    | '\'' :: '\'' :: '\'' :: cs => lines '\'' cs
    | '"' :: cs => singleLine '"' cs
    | '\'' :: cs => singleLine '\'' cs
    | _ => none
  read.map fun r => (String.ofList r.1, r.2)

/-! ## Keys -/

/-- A character of a key without quotes. -/
def isBareKeyChar (c : Char) : Bool := c.isAlphanum || c == '_' || c == '-'

/-- A part of a key. -/
def keyPart : Reader String := fun cs =>
  let read := match cs with
    | '"' :: cs => singleLine '"' cs
    | '\'' :: cs => singleLine '\'' cs
    | cs => some1 isBareKeyChar cs
  read.map fun r => (String.ofList r.1, r.2)

/-- The parts of a key, separated by points, with blanks around each. -/
def keyParts : Nat → Reader (List String)
  | 0, _ => none
  | fuel + 1, cs => do
      let (part, cs) ← keyPart (skipSpaces cs)
      match skipSpaces cs with
      | '.' :: cs => do
          let (parts, cs) ← keyParts fuel cs
          return (part :: parts, cs)
      | cs => return ([part], cs)

/-- Tables can be nested as deep as this, and keys have fewer parts. -/
def depthLimit : Nat := 80

/-- A key: the parts before the last one, and the last one. -/
def key : Reader (List String × String) := fun cs => do
  let (parts, cs) ← keyParts (cs.length + 1) cs
  if parts.length < depthLimit then
    let last ← parts.getLast?
    return ((parts.dropLast, last), cs)
  else none

/-! ## Numbers -/

/-- Digits of a class after the first one, without the underscores between them. -/
def moreDigits (p : Char → Bool) : List Char → List Char × List Char
  | [] => ([], [])
  | '_' :: c :: cs =>
      if p c then
        let (ds, rest) := moreDigits p cs
        (c :: ds, rest)
      else ([], '_' :: c :: cs)
  | c :: cs =>
      if p c then
        let (ds, rest) := moreDigits p cs
        (c :: ds, rest)
      else ([], c :: cs)

/-- Digits of a class, of which there is at least one. -/
def digitRun (p : Char → Bool) : Reader (List Char)
  | [] => none
  | c :: cs =>
      if p c then
        let (ds, rest) := moreDigits p cs
        some (c :: ds, rest)
      else none

/-- A sign, if there is one: whether it is a minus. -/
def sign : Reader Bool
  | '-' :: cs => some (true, cs)
  | '+' :: cs => some (false, cs)
  | cs => some (false, cs)

/-- Decimal digits of which the first is no zero, or a zero. -/
def wholeDigits : Reader (List Char)
  | '0' :: cs => some (['0'], cs)
  | cs => digitRun Char.isDigit cs

/-- The integer of that sign and magnitude, if it fits. -/
def integerOf? (negative : Bool) (n : Nat) : Option Value :=
  let m : Int := if negative then -n else n
  if (Number.fit? m).isSome then some (.integer m) else none

/-- An integer in a base, after its prefix. -/
def integerIn (base : Nat) : Reader Value := fun cs => do
  let (ds, cs) ← digitRun (fun c => (Text.digitIn? base c).isSome) cs
  let v ← integerOf? false (← readNat? base ds)
  return (v, cs)

/-- An integer. -/
def integer : Reader Value
  | '0' :: 'x' :: cs => integerIn 16 cs
  | '0' :: 'o' :: cs => integerIn 8 cs
  | '0' :: 'b' :: cs => integerIn 2 cs
  | cs => do
      let (negative, cs) ← sign cs
      let (ds, cs) ← wholeDigits cs
      let v ← integerOf? negative (← readNat? 10 ds)
      return (v, cs)

/-- The digits after a point, if there is one. -/
def fraction : Reader (List Char)
  | '.' :: cs => digitRun Char.isDigit cs
  | cs => some ([], cs)

/-- A power of ten, if one is written. -/
def exponent : Reader (Option Int)
  | c :: cs =>
      if c = 'e' ∨ c = 'E' then do
        let (negative, cs) ← sign cs
        let (ds, cs) ← digitRun Char.isDigit cs
        let n ← readNat? 10 ds
        return (some (if negative then -n else n), cs)
      else some (none, c :: cs)
  | [] => some (none, [])

/-- The real of that sign and magnitude. -/
def floatOf (negative : Bool) (x : Float) : Value :=
  .float (.ofFloat (if negative then -x else x))

/-- A decimal with a point or a power of ten. -/
def decimal : Reader Value := fun cs => do
  let (negative, cs) ← sign cs
  let (whole, cs) ← wholeDigits cs
  let (fraction, cs) ← fraction cs
  let (power, cs) ← exponent cs
  if fraction.isEmpty && power.isNone then none
  let n ← readNat? 10 (whole ++ fraction)
  let x := Decimal.nearest n (power.getD 0 - fraction.length)
  if x.isFinite || negative then return (floatOf negative x, cs) else none

/-- The reals that are no decimals. -/
def special : Reader Value := fun cs => do
  let (negative, cs) ← sign cs
  match cs with
  | 'i' :: 'n' :: 'f' :: cs => return (floatOf negative (1 / 0), cs)
  | 'n' :: 'a' :: 'n' :: cs => return (floatOf negative (0 / 0), cs)
  | _ => none

/-! ## Dates and times -/

/-- A number of so many digits in a range. -/
def number (width low high : Nat) : Reader Nat := fun cs => do
  let (ds, cs) ← exactly Char.isDigit width cs
  let n ← readNat? 10 ds
  if low ≤ n ∧ n ≤ high then some (n, cs) else none

/-- A date. -/
def date : Reader Date := fun cs => do
  let (year, cs) ← number 4 0 9999 cs
  let (_, cs) ← word ['-'] cs
  let (month, cs) ← number 2 1 12 cs
  let (_, cs) ← word ['-'] cs
  let (day, cs) ← number 2 1 (daysIn year month) cs
  return (⟨year, month, day⟩, cs)

/-- The part of a second, in nanoseconds; further digits do not count. -/
def secondFraction : Reader Nat
  | '.' :: cs => do
      let (ds, cs) ← some1 Char.isDigit cs
      let ds := ds.take 9
      let n ← readNat? 10 ds
      return (n * Nat.pow 10 (9 - ds.length), cs)
  | cs => some (0, cs)

/-- A time of day.  A minute may have a leap second. -/
def time : Reader Time := fun cs => do
  let (hour, cs) ← number 2 0 23 cs
  let (_, cs) ← word [':'] cs
  let (minute, cs) ← number 2 0 59 cs
  let (_, cs) ← word [':'] cs
  let (second, cs) ← number 2 0 60 cs
  let (nanosecond, cs) ← secondFraction cs
  return (⟨hour, minute, second, nanosecond⟩, cs)

/-- A distance to universal time. -/
def offset : Reader Offset
  | c :: cs =>
      if c = 'Z' ∨ c = 'z' then some (.zero, cs)
      else if c = '+' ∨ c = '-' then do
        let (hour, cs) ← number 2 0 23 cs
        let (_, cs) ← word [':'] cs
        let (minute, cs) ← number 2 0 59 cs
        let n : Int := (60 * hour + minute : Nat)
        return (.minutes (if c = '-' then -n else n), cs)
      else none
  | [] => none

/-- A time of day with a distance, if one is given. -/
def timeWithOffset : Reader (Time × Option Offset) := fun cs => do
  let (time, cs) ← time cs
  match offset cs with
  | some (offset, cs) => return ((time, some offset), cs)
  | none => return ((time, none), cs)

/-- What separates a date from a time. -/
def isDateEnd (c : Char) : Bool := c == 'T' || c == 't' || c == ' '

/-- A date, with a time if one follows. -/
def dateWithTime : Reader Datetime := fun cs => do
  let (date, cs) ← date cs
  let bare : Option (Datetime × List Char) := some ({ date := some date }, cs)
  match cs with
  | c :: rest =>
      if isDateEnd c then
        match timeWithOffset rest with
        | some ((time, offset), rest) =>
            some ({ date := some date, time := some time, offset }, rest)
        | none => bare
      else bare
  | [] => bare

/-- A date, a time, or both. -/
def datetime : Reader Datetime := fun cs =>
  match dateWithTime cs with
  | some r => some r
  | none => (time cs).map fun r => ({ time := some r.1 }, r.2)

/-- A value that is neither an array nor a table. -/
def scalar : Reader Value
  | '"' :: cs => (string ('"' :: cs)).map fun r => (.string r.1, r.2)
  | '\'' :: cs => (string ('\'' :: cs)).map fun r => (.string r.1, r.2)
  | 't' :: cs => (word "rue".toList cs).map fun r => (.boolean true, r.2)
  | 'f' :: cs => (word "alse".toList cs).map fun r => (.boolean false, r.2)
  | cs =>
      ((datetime cs).map fun r => (.datetime r.1, r.2)) <|> decimal cs <|> special cs <|> integer cs

end Abacus.Toml.Lexical
