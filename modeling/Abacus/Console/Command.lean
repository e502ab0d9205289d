import Abacus.Text.Blank

/-!
# Commands

A line that starts with a colon is meant for the console and not for the calculator.
Its first word names the command, and what follows, without the blanks around it, is
the argument.  Commands that take no argument ignore it.
-/

namespace Abacus.Console

/-- Commands. -/
inductive Command where
  | quit
  | help
  | history
  | vars
  | state
  /-- Show the tokens of an input. -/
  | parse (input : String)
  /-- Run an input without keeping the effects. -/
  | preview (input : String)
  deriving DecidableEq, Repr

/-- What a line is to the console. -/
inductive Reading where
  /-- An input for the calculator. -/
  | input
  /-- No command has this name. -/
  | unknown
  /-- The command lacks its argument; this is how it is used. -/
  | misused (usage : String)
  | command (c : Command)
  deriving DecidableEq, Repr

namespace Command

/-- The first word of a text and the rest without the blanks around it. -/
def splitWord (s : String) : String × String :=
  let cs := s.toList
  let rest := cs.dropWhile fun c => !Text.isBlank c
  (String.ofList (cs.takeWhile fun c => !Text.isBlank c), Text.trim (String.ofList rest))

/-- A command that needs an argument. -/
def withArgument (usage argument : String) (command : String → Command) : Reading :=
  if argument.isEmpty then .misused usage else .command (command argument)

/-- What a line is to the console. -/
def read (line : String) : Reading :=
  let line := Text.trim line
  if line.toList.head? = some ':' then
    let (name, argument) := splitWord line
    match name with
    | ":quit" | ":q" => .command .quit
    | ":help" | ":h" => .command .help
    | ":history" => .command .history
    | ":vars" | ":v" => .command .vars
    | ":state" => .command .state
    | ":parse" | ":p" => withArgument "Usage: :parse <expr>" argument .parse
    | ":preview" => withArgument "Usage: :preview <expr>" argument .preview
    | _ => .unknown
  else .input

end Command

end Abacus.Console
