import Abacus.Text.Blank
import Abacus.Text.Bytes

/-!
# Completion

When the user asks for completion, the word before the cursor is extended in every
way that makes sense in its place: to a command if it starts the line with a colon, to
an output format after `output(`, and otherwise to a function or a variable.

The word is the longest run of letters, digits, underscores and colons before the
cursor.  It is found by going back to the last character that does not belong to it,
and the word is then taken to start one byte after the start of that character.  So
after a character of several bytes, there is no place at which the word starts, and
completion fails.
-/

namespace Abacus.Console.Completion

/-- The commands that can be completed to. -/
def commands : List String :=
  [":help", ":quit", ":history", ":vars", ":state", ":parse", ":preview"]

/-- The functions of the language. -/
def functions : List String := ["abs", "output", "save", "load", "clear"]

/-- The formats that `output` takes. -/
def formats : List String := ["dec", "hex", "oct", "bin"]

/-- A character of a word that can be completed. -/
def isWordChar (c : Char) : Bool := c.isAlphanum || c == '_' || c == ':'

/-- The text before the last word, and that word. -/
def splitLastWord (cs : List Char) : List Char × List Char :=
  ((cs.reverse.dropWhile isWordChar).reverse, (cs.reverse.takeWhile isWordChar).reverse)

/-- The candidates that extend a word. -/
def extending (word : List Char) (candidates : List String) : List String :=
  candidates.filter fun c => word.isPrefixOf c.toList

/-- Whether a text ends with the start of a choice of output format. -/
def endsWithOutput (cs : List Char) : Bool :=
  "output(".toList.isSuffixOf (Text.dropTrailingBlanks cs)

/-- The extensions of a word after some text. -/
def words (before word : List Char) (bindings : List String) : List String :=
  match word with
  | [] => []
  | ':' :: _ => if (Text.dropBlanks before).isEmpty then extending word commands else []
  | _ =>
      if endsWithOutput before then extending word formats
      else extending word (functions ++ bindings)

/-- The byte at which the word after some text starts, if that is the start of a
character. -/
def wordStart? (before : List Char) : Option Nat :=
  match before.getLast? with
  | none => some 0
  | some c => if c.utf8Size = 1 then some (Text.byteSize before) else none

/-- Where the word before the cursor starts, and what it can be extended to. -/
def complete? (line : String) (cursor : Nat) (bindings : List String) :
    Option (Nat × List String) := do
  let (head, _) ← Text.splitAtByte? cursor line.toList
  let (before, word) := splitLastWord head
  let start ← wordStart? before
  return (start, words before word bindings)

end Abacus.Console.Completion
