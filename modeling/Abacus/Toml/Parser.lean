import Abacus.Toml.Lexical
import Abacus.Toml.Document

/-!
# Reading a settings file

The file is read in two passes.  The first turns the text into sections, each a header
with the entries below it.  The second, `Document.build?`, makes up the tables.

Arrays may spread over several lines, with comments, and may end with a comma.  Tables
within braces stay on one line and may not.

## Depth

Arrays and tables within values may be nested only so deep.  The bound is the fuel of
the reader of values, so there is no input on which it runs long.
-/

namespace Abacus.Toml.Parser

open Abacus.Text (Reader)
open Abacus.Text.Reader (word)
open Lexical

/-- The elements of an array after its opening bracket or a comma. -/
def elements (value : Reader Value) : Nat → Reader (List Value)
  | 0, _ => none
  | fuel + 1, cs => do
      match ← skipFiller cs with
      | ']' :: cs => return ([], cs)
      | cs => do
          let (v, cs) ← value cs
          match ← skipFiller cs with
          | ',' :: cs => do
              let (vs, cs) ← elements value fuel cs
              return (v :: vs, cs)
          | ']' :: cs => return ([v], cs)
          | _ => none

/-- A key, the equals sign and a value, with blanks around them. -/
def assignment (value : Reader Value) : Reader Assignment := fun cs => do
  let ((path, key), cs) ← key cs
  let (_, cs) ← word ['='] cs
  let (value, cs) ← value (skipSpaces cs)
  return ({ path, key, value }, skipSpaces cs)

/-- The entries of a table within braces, of which there is at least one. -/
def inlineEntries (value : Reader Value) : Nat → Reader (List Assignment)
  | 0, _ => none
  | fuel + 1, cs => do
      let (a, cs) ← assignment value cs
      match cs with
      | ',' :: cs => do
          let (as, cs) ← inlineEntries value fuel cs
          return (a :: as, cs)
      | '\x7d' :: cs => return ([a], cs)
      | _ => none

/-- A table within braces, after the opening brace. -/
def inlineTable (value : Reader Value) : Reader Value := fun cs =>
  match skipSpaces cs with
  | '\x7d' :: cs => some (.table [], cs)
  | cs => do
      let (as, cs) ← inlineEntries value (cs.length + 1) cs
      let v ← Document.inline? as
      return (v, cs)

/-- A value, nested at most so deep. -/
def value : Nat → Reader Value
  | 0, '[' :: _ => none
  | 0, '\x7b' :: _ => none
  | depth + 1, '[' :: cs =>
      (elements (value depth) (cs.length + 1) cs).map fun r => (.array r.1, r.2)
  | depth + 1, '\x7b' :: cs => inlineTable (value depth) cs
  | _, cs => scalar cs

/-- An entry on a line. -/
def entryLine : Reader Assignment := fun cs => do
  let (a, cs) ← assignment (value (depthLimit - 1)) cs
  let (_, cs) ← restOfLine cs
  return (a, cs)

/-- A header on a line. -/
def headerLine : Reader (Header × List String × String) := fun cs =>
  match cs with
  | '[' :: '[' :: cs => do
      let ((path, key), cs) ← key cs
      let (_, cs) ← word [']', ']'] cs
      let (_, cs) ← restOfLine cs
      return ((.element, path, key), cs)
  | '[' :: cs => do
      let ((path, key), cs) ← key cs
      let (_, cs) ← word [']'] cs
      let (_, cs) ← restOfLine cs
      return ((.table, path, key), cs)
  | _ => none

/-- The entries up to the next header, and the sections from there on. -/
def sections : Nat → List Char → Option (List Assignment × List Section)
  | 0, _ => none
  | fuel + 1, cs =>
      match skipSpaces cs with
      | [] => some ([], [])
      | '[' :: cs => do
          let ((header, path, key), cs) ← headerLine ('[' :: cs)
          let (assignments, rest) ← sections fuel cs
          return ([], { header, path, key, assignments } :: rest)
      | c :: cs =>
          if c = '#' ∨ c = '\n' ∨ c = '\r' then do
            let (_, cs) ← restOfLine (c :: cs)
            sections fuel cs
          else do
            let (a, cs) ← entryLine (c :: cs)
            let (as, rest) ← sections fuel cs
            return (a :: as, rest)

/-- The text without the mark that may open a file. -/
def dropMark : List Char → List Char
  | '\ufeff' :: cs => cs
  | cs => cs

/-- The table that a file holds, if its text is well formed. -/
def parse? (text : String) : Option Table := do
  let cs := dropMark text.toList
  let (assignments, sections) ← sections (cs.length + 1) cs
  Document.build? assignments sections

end Abacus.Toml.Parser
