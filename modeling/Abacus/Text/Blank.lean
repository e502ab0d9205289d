/-!
# White space

Input may be typed, piped or pasted, so the calculator treats every character with
the Unicode property `White_Space` as a separator, not only the six that ASCII
has.  The property is a short table; everything below is stated over it.

`trim` removes blanks from both ends of a text.
-/

namespace Abacus.Text

/-- The inclusive ranges of code points with the property `White_Space`. -/
def blankRanges : List (Nat × Nat) :=
  [(0x09, 0x0D), (0x20, 0x20), (0x85, 0x85), (0xA0, 0xA0), (0x1680, 0x1680),
   (0x2000, 0x200A), (0x2028, 0x2029), (0x202F, 0x202F), (0x205F, 0x205F), (0x3000, 0x3000)]

/-- A character that separates words and carries no meaning of its own. -/
def isBlank (c : Char) : Bool :=
  blankRanges.any fun r => r.1 ≤ c.toNat && c.toNat ≤ r.2

/-- The blanks of the table number twenty-five. -/
example : (blankRanges.map fun r => r.2 - r.1 + 1).sum = 25 := by decide

/-- The text without the blanks it starts with. -/
def dropBlanks (cs : List Char) : List Char :=
  cs.dropWhile isBlank

/-- The text without the blanks it ends with. -/
def dropTrailingBlanks (cs : List Char) : List Char :=
  (dropBlanks cs.reverse).reverse

/-- The text without the blanks at either end. -/
def trim (s : String) : String :=
  String.ofList (dropTrailingBlanks (dropBlanks s.toList))

/-- A text of blanks only. -/
def isBlankText (s : String) : Bool :=
  s.toList.all isBlank

/-- Nothing is left of a text of blanks, and something is left of any other. -/
theorem dropBlanks_eq_nil_iff (cs : List Char) : dropBlanks cs = [] ↔ cs.all isBlank = true := by
  induction cs with
  | nil => simp [dropBlanks]
  | cons c cs ih => by_cases h : isBlank c = true <;> simp_all [dropBlanks]

end Abacus.Text
