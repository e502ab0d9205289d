import Abacus.Text.Blank
import Abacus.Text.Bytes
import Abacus.Number.Literal
import Abacus.Token
import Abacus.SyntaxError

/-!
# From text to tokens

Reading goes from left to right.  Blanks are skipped; at any other character one
token starts, and its extent is decided by what follows:

* a digit, or a point before a digit, starts a number: the longest run of letters,
  digits, underscores and points, which then has to be a literal as a whole;
* a letter or underscore starts a word: the longest run of letters, digits and
  underscores;
* anything else is a symbol of one or two characters.

## Words that are numbers

`b101` is a word by its looks and a number by its meaning.  A word is a number when
`b` is followed by at least one of `0`, `1` and `_`, by nothing else, and the whole is
a literal.  A word with too many binary digits for a word of 64 bits is therefore an
ordinary name.

## One step at a time

`lexeme` looks at the text from a nonblank character on and answers with the kind of
the token and the number of further characters it takes.  `tokensFrom` repeats this.
Each step consumes at least the character it looks at, so the text gets shorter.
-/

namespace Abacus.Token

/-- An ASCII letter. -/
def isLetter (c : Char) : Bool := c.isAlpha

/-- A character of a word. -/
def isWordChar (c : Char) : Bool := c.isAlphanum || c == '_'

/-- A character of a number. -/
def isNumberChar (c : Char) : Bool := isWordChar c || c == '.'

/-- Whether the text from `c` on starts like a number. -/
def startsNumber (c : Char) (cs : List Char) : Bool :=
  c.isDigit || (c == '.' && (cs.head?.map Char.isDigit).getD false)

/-- Whether the text from `c` on starts like a word. -/
def startsWord (c : Char) : Bool := isLetter c || c == '_'

/-- Whether a word spells a number in binary. -/
def isBinaryWord (word : List Char) : Bool :=
  match word with
  | 'b' :: digits =>
      !digits.isEmpty && digits.all (fun c => c == '0' || c == '1' || c == '_') &&
        (Literal.read? (String.ofList word)).isSome
  | _ => false

/-- The kind of a word. -/
def wordKind (word : List Char) : Kind :=
  if isBinaryWord word then .number
  else (Kind.ofKeyword? (String.ofList word)).getD .variable

/-- The kind of the symbol that starts with `c` and whether it takes a second
character. -/
def symbol? (c : Char) (cs : List Char) : Option (Kind × Nat) :=
  match c, cs with
  | '*', '*' :: _ => some (.pow, 1)
  | '/', '/' :: _ => some (.floorDiv, 1)
  | '<', '<' :: _ => some (.shiftLeft, 1)
  | '>', '>' :: _ => some (.shiftRight, 1)
  | '*', _ => some (.mul, 0)
  | '/', _ => some (.div, 0)
  | '+', _ => some (.add, 0)
  | '-', _ => some (.sub, 0)
  | '%', _ => some (.mod, 0)
  | '&', _ => some (.and, 0)
  | '|', _ => some (.or, 0)
  | '^', _ => some (.xor, 0)
  | '~', _ => some (.complement, 0)
  | '=', _ => some (.assign, 0)
  | '(', _ => some (.openParen, 0)
  | ')', _ => some (.closeParen, 0)
  | _, _ => none

/-- The token that starts with the nonblank character `c`: its kind and how many of
the characters after `c` belong to it.  The position is that of `c`. -/
def lexeme (pos : Nat) (c : Char) (cs : List Char) : Except SyntaxError (Kind × Nat) :=
  if startsNumber c cs then
    let more := cs.takeWhile isNumberChar
    let text := String.ofList (c :: more)
    if (Literal.read? text).isSome then .ok (.number, more.length)
    else .error (.invalidNumber text pos)
  else if startsWord c then
    let more := cs.takeWhile isWordChar
    .ok (wordKind (c :: more), more.length)
  else
    match symbol? c cs with
    | some found => .ok found
    | none => .error (.unexpectedChar c pos)

/-- The tokens of a text that starts at byte `pos` of the input. -/
def tokensFrom (pos : Nat) (text : List Char) : Except SyntaxError (List Token) :=
  match text with
  | [] => .ok [⟨.ending, pos, ""⟩]
  | c :: cs =>
      if Text.isBlank c then tokensFrom (pos + c.utf8Size) cs
      else
        match lexeme pos c cs with
        | .error e => .error e
        | .ok (kind, more) =>
            let piece := c :: cs.take more
            match tokensFrom (pos + Text.byteSize piece) (cs.drop more) with
            | .error e => .error e
            | .ok rest => .ok (⟨kind, pos, String.ofList piece⟩ :: rest)
termination_by text.length
decreasing_by
  · simp
  · simp only [List.length_drop, List.length_cons]
    omega

/-- The tokens of an input. -/
def tokenize (input : String) : Except SyntaxError (List Token) :=
  tokensFrom 0 input.toList

end Abacus.Token
