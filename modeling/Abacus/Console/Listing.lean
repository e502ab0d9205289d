import Abacus.Dict
import Abacus.Token
import Abacus.Text.Bytes
import Abacus.Console.Palette

/-!
# Listings

How tokens and variables are shown.  Tokens are coloured by their group, both in the
table of `:parse` and in the line that is being typed.
-/

namespace Abacus.Console

/-- How tokens of a group are set off. -/
def groupPaint : Token.Kind.Group → Paint
  | .value => .green
  | .operator => .yellow
  | .function => .cyan
  | .other => .gray

/-- A text in the colour of a kind of token. -/
def paintKind (p : Palette) (kind : Token.Kind) (s : String) : String :=
  p.paint (groupPaint kind.group) s

/-- A row of the token table: position, kind and text. -/
def tokenRow (p : Palette) (t : Token) : String :=
  Text.padLeft 4 (toString t.pos) ++ "  " ++
    paintKind p t.kind (Text.padRight 10 t.kind.name) ++ " " ++ t.text ++ "\n"

/-- The table of tokens. -/
def tokenTable (p : Palette) (ts : List Token) : String :=
  String.join (ts.map (tokenRow p))

/-- Colours the rest of a line, which starts at byte `done`, by the tokens to come.  A
token owns the text up to the next one.  Where tokens and text do not fit together,
the rest is left as it is. -/
def highlightFrom (p : Palette) (done : Nat) (rest : List Char) : List Token → String
  | [] => String.ofList rest
  | t :: ts =>
      let stop := match ts with
        | [] => t.pos + Text.size t.text
        | next :: _ => next.pos
      if t.kind = .ending ∨ t.pos < done ∨ stop < t.pos then String.ofList rest
      else
        match Text.splitAtByte? (t.pos - done) rest with
        | none => String.ofList rest
        | some (gap, rest') =>
            match Text.splitAtByte? (stop - t.pos) rest' with
            | none => String.ofList rest
            | some (span, rest'') =>
                String.ofList gap ++ paintKind p t.kind (String.ofList span) ++
                  highlightFrom p stop rest'' ts

/-- A line coloured by its tokens. -/
def highlight (p : Palette) (line : String) (ts : List Token) : String :=
  highlightFrom p 0 line.toList ts

/-- The width of the column of names: the bytes of the longest one. -/
def nameWidth (names : List String) : Nat :=
  (names.map Text.size).foldl max 0

/-- A row of the variables table. -/
def variableRow (p : Palette) (width : Nat) (name value : String) : String :=
  "  " ++ p.paint .cyan (Text.padRight width name) ++ " = " ++ value ++ "\n"

/-- The table of variables. -/
def variableTable (p : Palette) (bindings : Dict String) : String :=
  if bindings.isEmpty then p.paint .gray "No variables defined." ++ "\n"
  else
    let width := nameWidth bindings.keys
    String.join (bindings.entries.map fun e => variableRow p width e.1 e.2)

end Abacus.Console
