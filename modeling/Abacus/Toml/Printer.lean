import Abacus.Decimal.Layout
import Abacus.Toml
import Abacus.Toml.Quoted

/-!
# Writing a settings file

A table is written as its own entries, one a line, followed by the tables inside it,
each under a header with its full path.  An array whose elements are all tables is
written as a sequence of tables under the same header.  Anything else inside an array
stays on the line of the array.

## Which tables have a header

A table that only holds other tables needs no header, since their headers name it; an
empty table needs one, or it would be lost.  A blank line separates a header from what
comes before it.

## Order

A table is written in the order of its entries, except that those which have a header
come after those which have none; otherwise they would be read as part of the table
that the header opens.
-/

namespace Abacus.Toml

/-- Reals are written like results, but keep a zero after the point. -/
def floatLayout : Decimal.Layout :=
  { tie := .away, positional := fun _ => true, wholeFraction := ['0'] }

/-- The characters of a real. -/
def floatChars (x : Double) : List Char :=
  if x.isFinite then (floatLayout.numeral x).chars
  else if x.isUndefined then ['n', 'a', 'n']
  else if x.isNegative then ['-', 'i', 'n', 'f']
  else ['i', 'n', 'f']

/-- Texts separated by commas. -/
def commaSeparated : List (List Char) → List Char
  | [] => []
  | [x] => x
  | x :: xs => x ++ ',' :: ' ' :: commaSeparated xs

/-- A table within braces, given its entries. -/
def inlineTable (entries : List (List Char)) : List Char :=
  if entries.isEmpty then ['\x7b', '\x7d']
  else '\x7b' :: ' ' :: (commaSeparated entries ++ [' ', '\x7d'])

mutual

/-- A value on one line. -/
def inline : Value → List Char
  | .string s => quote s
  | .integer n => (Decimal.Numeral.ofInt n).chars
  | .float x => floatChars x
  | .boolean true => ['t', 'r', 'u', 'e']
  | .boolean false => ['f', 'a', 'l', 's', 'e']
  | .datetime d => d.chars
  | .array elements => '[' :: (commaSeparated (inlineElements elements) ++ [']'])
  | .table entries => inlineTable (inlineEntries entries)

/-- The elements of an array, each written on one line. -/
def inlineElements : List Value → List (List Char)
  | [] => []
  | v :: vs => inline v :: inlineElements vs

/-- The entries of a table, each value written on one line. -/
def inlineEntries : List (String × Value) → List (List Char)
  | [] => []
  | (key, v) :: es => (quoteKey key ++ ' ' :: '=' :: ' ' :: inline v) :: inlineEntries es

end

/-- An entry on a line of its own. -/
def entryLine (e : String × Value) : List Char :=
  quoteKey e.1 ++ ' ' :: '=' :: ' ' :: (inline e.2 ++ ['\n'])

/-- Whether a value gets a header of its own in a table. -/
def hasHeader (v : Value) : Bool := v.isTable || v.isTableArray

/-- The lines of the entries of a table that have no header of their own. -/
def entryLines (entries : Table) : List Char :=
  (entries.filter fun e => !hasHeader e.2).flatMap entryLine

/-- A path of keys. -/
def pathChars (path : List String) : List Char :=
  ['.'].intercalate (path.map quoteKey)

/-- A table as a block of its own: the header, if it is shown, and the lines below. -/
structure Block where
  /-- The header line. -/
  header : Option (List Char)
  body : List Char

/-- The header of a table. -/
def tableHeader (path : List String) : List Char := '[' :: (pathChars path ++ [']', '\n'])

/-- The header of an element of an array of tables. -/
def elementHeader (path : List String) : List Char :=
  '[' :: '[' :: (pathChars path ++ [']', ']', '\n'])

/-- Whether a table shows its header: unless all its entries are blocks themselves. -/
def showsHeader (entries : Table) : Bool :=
  entries.isEmpty || entries.any fun e => !hasHeader e.2

mutual

/-- The blocks of a value that stands at a path. -/
def blocks (path : List String) : Value → List Block
  | .table entries =>
      { header := if showsHeader entries then some (tableHeader path) else none
        body := entryLines entries } :: entryBlocks path entries
  | .array elements => elementBlocks path elements
  | _ => []

/-- The blocks of the entries that have headers. -/
def entryBlocks (path : List String) : List (String × Value) → List Block
  | [] => []
  | (key, v) :: es =>
      if hasHeader v then blocks (path ++ [key]) v ++ entryBlocks path es
      else entryBlocks path es

/-- The blocks of the elements of an array of tables. -/
def elementBlocks (path : List String) : List Value → List Block
  | [] => []
  | .table entries :: vs =>
      { header := some (elementHeader path), body := entryLines entries } ::
        (entryBlocks path entries ++ elementBlocks path vs)
  | _ :: vs => elementBlocks path vs

end

/-- The text of some blocks.  A header is preceded by a blank line unless it is the
first thing in the file. -/
def renderBlocks (first : Bool) : List Block → List Char
  | [] => []
  | b :: bs =>
      match b.header with
      | some header => (if first then [] else ['\n']) ++ header ++ b.body ++ renderBlocks false bs
      | none => b.body ++ renderBlocks (first && b.body.isEmpty) bs

/-- The text of a settings file. -/
def print (root : Table) : String :=
  let top := { header := none, body := entryLines root : Block }
  String.ofList (renderBlocks true (top :: entryBlocks [] root))

end Abacus.Toml
