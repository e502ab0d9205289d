import Abacus.Calculator
import Abacus.Console.Command
import Abacus.Console.Grouping
import Abacus.Console.Listing

/-!
# The conversation

The console takes line after line.  Blank lines are passed over, lines that start with
a colon are commands, and every other line is run by the session, to persist.

## Events

A line leads to a new session and to *events*, which are texts for one of the two
outputs, and snapshots to be stored under the hook of the session.  What a line does
is thus a function, and whoever drives the conversation carries the events out, in
their order.
-/

namespace Abacus.Console

/-- Something to be carried out. -/
inductive Event (η : Type) where
  /-- Write to the standard output. -/
  | out (text : String)
  /-- Write to the standard error output. -/
  | err (text : String)
  /-- Store a snapshot. -/
  | store (hook : η) (snapshot : String)
  deriving DecidableEq, Repr

namespace Repl

/-- The program and its version. -/
def programName : String := "zappac 0.3.0"

/-- How the conversation is shown. -/
structure Options where
  palette : Palette
  /-- Whether decimal results have their digits grouped. -/
  groupDigits : Bool

/-- What a line leads to. -/
structure Step (η : Type) where
  session : Calculator η
  events : List (Event η)
  /-- Whether the conversation goes on. -/
  goesOn : Bool := true

variable {η : Type}

/-- A result as it is shown. -/
def resultText (o : Options) (result : String) : String :=
  if o.groupDigits then Grouping.group result else result

/-- A message about a fault. -/
def complaint (p : Palette) (label message : String) : Event η :=
  .err (p.paint .red label ++ " " ++ message ++ "\n")

/-- The names that a seeded session knows although nothing has been run. -/
def restoredBanner (s : Calculator η) : Option String :=
  let names := s.environment.bindings.keys
  if names.isEmpty || !s.record.bindings.isEmpty then none
  else
    let noun := if names.length = 1 then "variable" else "variables"
    let list := String.intercalate ", " names
    some s!"Restored {names.length} {noun} from last_state: {list}"

/-- The lines that open the conversation. -/
def opening (o : Options) (s : Calculator η) : List (Event η) :=
  let p := o.palette
  [.out (p.paint .bold (p.paint .cyan programName) ++ "\n")] ++
    (match restoredBanner s with
      | some banner => [.out (p.paint .gray banner ++ "\n")]
      | none => []) ++
    [.out (p.paint .gray "Type :help for available commands, :quit to exit." ++ "\n\n")]

/-- The commands and what they do. -/
def commandHelp : List (String × String) :=
  [(":help, :h", "Show this help"),
   (":quit, :q", "Exit the REPL"),
   (":history", "Show evaluated lines, newest first"),
   (":vars, :v", "Show variables"),
   (":state", "Dump the session state as JSON"),
   (":parse <expr>, :p <expr>", "Show the nodes an input parses to"),
   (":preview <expr>", "Evaluate without keeping the result")]

/-- Examples of what can be entered. -/
def languageHelp : List String :=
  ["x = 0xff & b1010, y = x << 2, 7 // 2, 2 ** 10, ~x, abs(-3)",
   "output(hex|dec|oct|bin), save(name), load(name), clear"]

/-- The help text. -/
def help (p : Palette) : String :=
  p.paint .bold "Commands:" ++ "\n" ++
    String.join (commandHelp.map fun row =>
      "  " ++ p.paint .cyan row.1 ++ "  " ++ p.paint .gray row.2 ++ "\n") ++
    "\n" ++ p.paint .bold "Language:" ++ "\n" ++
    String.join (languageHelp.map fun line => "  " ++ p.paint .gray line ++ "\n")

/-- A row of the history.  The column of numbers is four characters wide, counted with
the escape sequences that colour the number. -/
def historyRow (o : Options) (number : Nat) (entry : Session.Entry) : String :=
  let p := o.palette
  Text.padLeft 4 (p.paint .gray (toString number)) ++ " " ++ entry.input ++ " " ++
    p.paint .gray "=" ++ " " ++ resultText o entry.result ++ "\n"

/-- The rows of the history from a number on. -/
def historyRows (o : Options) (number : Nat) : List Session.Entry → String
  | [] => ""
  | entry :: entries => historyRow o number entry ++ historyRows o (number + 1) entries

/-- The history, newest first. -/
def historyText (o : Options) (history : List Session.Entry) : String :=
  if history.isEmpty then o.palette.paint .gray "History is empty." ++ "\n"
  else historyRows o 1 history

/-- The record of a session as JSON. -/
def recordJson (r : Session.Record) : Json :=
  .object
    [("last_error", match r.lastError with
      | some message => .string message
      | none => .null),
     ("last_result", .string r.lastResult),
     ("history", .array (r.history.map fun entry =>
       .object [("input", .string entry.input), ("result", .string entry.result)])),
     ("variables", .object (r.bindings.entries.map fun e => (e.1, .string e.2)))]

/-- A token as JSON. -/
def tokenJson (t : Token) : Json :=
  .object [("kind", .string t.kind.name), ("pos", .ofNat t.pos), ("text", .string t.text)]

/-- The event of storing what a line has saved. -/
def storing (saved : Option (η × String)) : List (Event η) :=
  match saved with
  | some (hook, snapshot) => [.store hook snapshot]
  | none => []

/-- The message of a session whose last line failed. -/
def failure (p : Palette) (s : Calculator η) : List (Event η) :=
  match s.record.lastError with
  | some message => [complaint p "error:" message]
  | none => []

/-- A line for the session. -/
def evaluate (o : Options) (s : Calculator η) (line : String) : Step η :=
  let outcome := s.exec line true
  let after := outcome.session
  { session := after
    events := storing outcome.saved ++
      if outcome.ok then
        [.out (o.palette.paint .bold (resultText o after.record.lastResult) ++ "\n")]
      else failure o.palette after }

/-- A command. -/
def command (o : Options) (s : Calculator η) : Command → Step η
  | .quit => { session := s, events := [], goesOn := false }
  | .help => { session := s, events := [.out (help o.palette)] }
  | .history => { session := s, events := [.out (historyText o s.record.history)] }
  | .vars => { session := s, events := [.out (variableTable o.palette s.record.bindings)] }
  | .state => { session := s, events := [.out ((recordJson s.record).pretty ++ "\n")] }
  | .parse input =>
      match Calculator.parse input with
      | .ok ts => { session := s, events := [.out (tokenTable o.palette ts)] }
      | .error e => { session := s, events := [complaint o.palette "syntax error:" e.message] }
  | .preview input =>
      let outcome := s.exec input false
      let after := outcome.session
      { session := after
        events :=
          if outcome.ok then
            [.out (after.record.lastResult ++ " " ++ o.palette.paint .gray "(preview)" ++ "\n")]
          else failure o.palette after }

/-- A line. -/
def step (o : Options) (s : Calculator η) (line : String) : Step η :=
  if Text.isBlankText line then { session := s, events := [] }
  else
    match Command.read line with
    | .input => evaluate o s (Text.trim line)
    | .unknown =>
        { session := s
          events := [complaint o.palette "error:" "unknown command. Type :help for usage."] }
    | .misused usage => { session := s, events := [complaint o.palette "error:" usage] }
    | .command c => command o s c

/-- The session after some lines, and everything they led to.  Lines after the one that
ends the conversation are not looked at. -/
def run (o : Options) (s : Calculator η) : List String → Calculator η × List (Event η)
  | [] => (s, [])
  | line :: lines =>
      let next := step o s line
      if next.goesOn then
        let (last, events) := run o next.session lines
        (last, next.events ++ events)
      else (next.session, next.events)

end Repl

end Abacus.Console
