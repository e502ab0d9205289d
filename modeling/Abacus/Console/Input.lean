import Abacus.Text.Backspace

/-!
# Lines of input

Input that is piped in comes as one text.  A line ends with a line feed, before which
a carriage return does not count; the last line may lack its end.  Backspaces in a line
take effect; a line in which they cannot is no line that could be carried out.
-/

namespace Abacus.Console.Input

/-- Cuts a text after every line feed. -/
def splitLines : List Char → List (List Char)
  | [] => []
  | c :: cs =>
      if c = '\n' then [c] :: splitLines cs
      else
        match splitLines cs with
        | [] => [[c]]
        | line :: lines => (c :: line) :: lines

/-- A line without its end. -/
def dropEnd (line : List Char) : List Char :=
  match line.reverse with
  | '\n' :: '\r' :: rev => rev.reverse
  | '\n' :: rev => rev.reverse
  | _ => line

/-- A line as it was meant: without its end, and with backspaces carried out, if they
can be. -/
def clean? (line : List Char) : Option String := Text.typed? (String.ofList (dropEnd line))

/-- The lines of a text. -/
def lines (text : String) : List (Option String) := (splitLines text.toList).map clean?

end Abacus.Console.Input
