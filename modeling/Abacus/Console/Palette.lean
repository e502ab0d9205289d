import Abacus.Text.Pad

/-!
# Colours

Text is coloured by wrapping it in the escape sequences of a terminal.  A palette
that is switched off leaves every text as it is.
-/

namespace Abacus.Console

/-- The ways in which text can be set off. -/
inductive Paint where
  | green
  | red
  | yellow
  | cyan
  | gray
  | bold
  /-- Bold and green. -/
  | label
  deriving DecidableEq, Repr

/-- The parameters of the escape sequence. -/
def Paint.code : Paint → String
  | .green => "32"
  | .red => "31"
  | .yellow => "33"
  | .cyan => "36"
  | .gray => "90"
  | .bold => "1"
  | .label => "1;32"

/-- Whether text is coloured. -/
structure Palette where
  enabled : Bool
  deriving DecidableEq, Repr

namespace Palette

/-- The text set off in this way. -/
def paint (p : Palette) (how : Paint) (s : String) : String :=
  if p.enabled then "\x1b[" ++ how.code ++ "m" ++ s ++ "\x1b[0m" else s

/-- A label in its column of twelve characters. -/
def statusLabel (p : Palette) (s : String) : String :=
  p.paint .label (Text.padLeft 12 s)

@[simp] theorem paint_disabled (how : Paint) (s : String) :
    (Palette.mk false).paint how s = s := rfl

end Palette

end Abacus.Console
