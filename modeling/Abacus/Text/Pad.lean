/-!
# Columns

Tables are laid out by padding each cell with spaces to the width of its column.
The width of a cell is its number of characters; a cell that is too wide is left as
it is.
-/

namespace Abacus.Text

/-- The text followed by as many spaces as it lacks of `width` characters. -/
def padRight (width : Nat) (s : String) : String :=
  s ++ String.ofList (List.replicate (width - s.length) ' ')

/-- The text preceded by as many spaces as it lacks of `width` characters. -/
def padLeft (width : Nat) (s : String) : String :=
  String.ofList (List.replicate (width - s.length) ' ') ++ s

end Abacus.Text
