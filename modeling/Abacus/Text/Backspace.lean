import Abacus.Text.Bytes
import Abacus.Text.Cluster

/-!
# What a backspace removes

In piped input a backspace takes back the last thing typed, which is a cluster, not
always a character.  `typed?` replays a line with its backspaces.

## Sizes

What has been typed is a text and, for each cluster in it, the number of bytes that a
backspace is to remove.  That number is kept in one byte.  A cluster of 256 bytes or
more is thus not removed as a whole: its number is too small, and only that many bytes
go from the end of the text.  Where this would cut a character in two, the line cannot
be replayed.
-/

namespace Abacus.Text

/-- What has been typed. -/
structure Typed where
  /-- The characters, newest first. -/
  chars : List Char := []
  /-- The number of bytes that each backspace from here on removes. -/
  sizes : List Nat := []
  deriving DecidableEq, Repr

namespace Typed

/-- Types a cluster.  A backspace with nothing in front of it does nothing. -/
def type? (t : Typed) (cluster : List Char) : Option Typed :=
  if cluster = ['\x08'] then
    match t.sizes with
    | [] => some t
    | size :: sizes => (splitAtByte? size t.chars).map fun parts => { chars := parts.2, sizes }
  else
    some { chars := cluster.reverse ++ t.chars, sizes := byteSize cluster % 0x100 :: t.sizes }

/-- Types some clusters, one after the other. -/
def typeAll? (t : Typed) : List (List Char) → Option Typed
  | [] => some t
  | cluster :: rest => (t.type? cluster).bind fun t => t.typeAll? rest

end Typed

/-- What is left of a line after its backspaces. -/
def typed? (line : String) : Option String :=
  if line.toList.contains '\x08' then
    (Typed.typeAll? {} (Cluster.clusters line.toList)).map fun t => String.ofList t.chars.reverse
  else some line

example : typed? "12\x08+\x083" = some "13" := by decide +kernel

/-- A letter of two bytes with 127 accents of two bytes each has the number zero. -/
example : (Typed.type? {} ('é' :: List.replicate 127 '\u0301')).map Typed.sizes = some [0] := by
  decide +kernel

end Abacus.Text
