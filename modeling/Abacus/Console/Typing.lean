import Abacus.Calculator
import Abacus.Console.Completion
import Abacus.Console.Listing

/-!
# While a line is being typed

Before a line is entered the user sees it coloured by its tokens, can have its last
word completed, and is shown the result it would have.  That result comes from a
preview: the line is run and its effects are dropped.
-/

namespace Abacus.Console.Typing

variable {η : Type}

/-- A line that is meant for the console. -/
def isCommandLine (line : String) : Bool :=
  (Text.dropBlanks line.toList).head? == some ':'

/-- The line in colour.  A line that is no statement yet stays plain. -/
def highlight (p : Palette) (line : String) : String :=
  if !p.enabled || isCommandLine line then line
  else
    match Calculator.parse line with
    | .ok ts => Console.highlight p line ts
    | .error _ => Console.highlight p line []

/-- The completions of the word before the cursor. -/
def complete? (s : Calculator η) (line : String) (cursor : Nat) : Option (Nat × List String) :=
  Completion.complete? line cursor s.environment.bindings.keys

/-- The session after a preview of the line, and the result to show. -/
def previewHint (s : Calculator η) (line : String) : Calculator η × Option String :=
  let text := Text.trim line
  if text.isEmpty || isCommandLine text then (s, none)
  else
    let outcome := s.exec text false
    (outcome.session,
      if outcome.ok then some ("  = " ++ outcome.session.record.lastResult) else none)

/-- The preview as the cursor stands: it is shown at the end of the line only, and only
if the user wants previews. -/
def hint (s : Calculator η) (preview : Bool) (line : String) (cursor : Nat) :
    Calculator η × Option String :=
  if !preview || cursor < Text.size line then (s, none) else previewHint s line

end Abacus.Console.Typing
