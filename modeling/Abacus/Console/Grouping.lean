/-!
# Digit groups

Long decimal results are easier to read with a comma between every three digits.
`group` puts them in if the text is a plain decimal: an optional minus sign, digits,
and optionally a point with more digits.  Results in another base start with a zero or
a letter and are left alone, and so is anything else.
-/

namespace Abacus.Console.Grouping

/-- Puts a comma before every digit that has a multiple of three digits from itself to
the end, except the first. -/
def separate : List Char → List Char
  | [] => []
  | [d] => [d]
  | d :: ds => if ds.length % 3 = 0 then d :: ',' :: separate ds else d :: separate ds

/-- The sign of a text and the text after it. -/
def splitSign : List Char → List Char × List Char
  | '-' :: cs => (['-'], cs)
  | cs => ([], cs)

/-- Whether the digits before the point are to be grouped, given what follows them:
nothing, or a point and digits. -/
def isGroupable (whole rest : List Char) : Bool :=
  3 < whole.length && whole.all Char.isDigit && whole.head? != some '0' &&
    (rest.drop 1).all Char.isDigit

/-- The text with its digits grouped, as characters. -/
def groupChars (cs : List Char) : List Char :=
  let (sign, body) := splitSign cs
  let whole := body.takeWhile (· != '.')
  let rest := body.dropWhile (· != '.')
  if isGroupable whole rest then sign ++ separate whole ++ rest else cs

/-- The text with its digits grouped. -/
def group (s : String) : String := String.ofList (groupChars s.toList)

example : ["1234567.5", "-1000", "999", "0755", "0xff", "1e9999", "12345.6.7"].map group =
    ["1,234,567.5", "-1,000", "999", "0755", "0xff", "1e9999", "12345.6.7"] := by
  decide +kernel

end Abacus.Console.Grouping
