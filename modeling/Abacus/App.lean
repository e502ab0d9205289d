import Abacus.Settings.Store
import Abacus.Console.Editor
import Abacus.Console.HistoryPath
import Abacus.App.Arguments

/-!
# The program

What the program does, from its arguments to its exit code, in any monad that has the
operations of a `Host`: access to files and two outputs.

## The settings that count

An explicit settings file is used as it is, and if it is missing, the defaults are.
Otherwise the nearest settings file counts.  Snapshots are stored in the file that the
settings came from, or, without any file, in that of the user.

## Colours

Results and messages are coloured if the settings say so, `--no-color` is not given
and the environment does not forbid colours.  A fault of the settings themselves is
reported before anyone can know what they say; only the environment counts there.

## The prompt

Where the input is not typed there is no prompt.  Only on a terminal that is too simple
for editing lines nobody looks whether anyone is typing, and the prompt is always shown.
Elsewhere the editor shows it.

## Failures that do not matter

A snapshot that cannot be stored is lost: the line that saved it has done what it was asked
to within the session.  A line history that cannot be loaded or kept is worth a warning and
nothing more.

## What is left out

The log, which is written to the standard error output as well, is none of this.  A snapshot
that cannot be stored and a seed that cannot be read leave a line in it, unless the
environment turns it down.
-/

namespace Abacus

/-- Files and the two outputs. -/
class Host (m : Type → Type) extends Files m where
  /-- Writes to the standard output. -/
  out : String → m Unit
  /-- Writes to the standard error output. -/
  err : String → m Unit

namespace App

open Console (Palette Event)

/-- What the program knows of the place where it runs. -/
structure Surroundings where
  /-- The working directory. -/
  directory : Option String := none
  /-- The home directory. -/
  home : Option String := none
  /-- Whether the environment forbids colours. -/
  noColor : Bool := false
  /-- The name of the history file, if the environment gives one. -/
  historyPath : Option String := none
  /-- Whether the terminal is too simple for lines to be edited on it. -/
  simpleTerminal : Bool := false
  deriving DecidableEq, Repr

/-- The kinds of terminal on which lines cannot be edited. -/
def simpleTerminals : List String := ["dumb", "cons25", "emacs"]

/-- Whether lines cannot be edited on a terminal of that kind, in whatever case it is
written. -/
def isSimpleTerminal (kind : String) : Bool := simpleTerminals.contains kind.toLower

variable {m : Type → Type} [Monad m] [Host m]

/-- A complaint on the standard error output. -/
def complain (p : Palette) (label message : String) : m Unit :=
  Host.err (p.paint .red label ++ " " ++ message ++ "\n")

/-- A warning on the standard error output. -/
def warn (p : Palette) (message : String) : m Unit :=
  Host.err (p.paint .yellow "warning:" ++ " " ++ message ++ "\n")

/-- The settings that count, and the file in which snapshots are stored. -/
def loadSettings (here : Surroundings) (explicit : Option String) :
    m (Except Settings.Fault (Settings × Option String)) := do
  match explicit with
  | some path =>
      if ← Files.isPresent path then
        match ← Settings.load path with
        | .ok settings => return .ok (settings, some path)
        | .error fault => return .error fault
      else return .ok ({}, some path)
  | none =>
      match ← Settings.find here.directory here.home with
      | some path =>
          match ← Settings.load path with
          | .ok settings => return .ok (settings, some path)
          | .error fault => return .error fault
      | none => return .ok ({}, here.home.map Settings.userPath)

/-- The session that settings describe.  Its hook is the file for snapshots. -/
def openSession (settings : Settings) (target : Option String) : Calculator String :=
  let s : Calculator String := Calculator.start settings.lastState
  { s with hook := target }

/-- Stores a snapshot that is due.  Why it could not be stored would be a line of the log,
which is left out here. -/
def storeSaved (saved : Option (String × String)) : m Unit := do
  match saved with
  | some (path, snapshot) => discard (Settings.store path snapshot)
  | none => return ()

/-- Runs a line and stores the snapshot that it asks for. -/
def execLine (s : Calculator String) (line : String) (persist : Bool) :
    m (Calculator String × Bool) := do
  let outcome := s.exec line persist
  storeSaved outcome.saved
  return (outcome.session, outcome.ok)

/-- Evaluates inputs until one fails. -/
def evalInputs (p : Palette) (s : Calculator String) : List String → m UInt32
  | [] => return 0
  | input :: inputs => do
      let (s, ok) ← execLine s input true
      if ok then
        Host.out (s.record.lastResult ++ "\n")
        evalInputs p s inputs
      else
        let message := s.record.lastError.getD "evaluation failed"
        complain p "error:" (p.paint .bold input ++ ": " ++ message)
        return 1

/-- Shows the tokens of an input. -/
def showTokens (p : Palette) (input : String) : m UInt32 := do
  match Calculator.parse input with
  | .ok ts =>
      Host.out ((Json.array (ts.map Console.Repl.tokenJson)).pretty ++ "\n")
      return 0
  | .error e =>
      complain p "syntax error:" e.message
      return 1

/-- Makes a settings file in the working directory. -/
def makeSettings (p : Palette) : m UInt32 := do
  if ← Files.isPresent Settings.fileName then
    complain p "error:" (Settings.fileName ++ " already exists, not overwriting")
    return 1
  match ← Files.write Settings.fileName Settings.template with
  | .error e =>
      complain p "error:" ("writing " ++ Settings.fileName ++ ": " ++ e.message)
      return 1
  | .ok () =>
      Host.out (p.statusLabel "Created" ++ " " ++ Settings.fileName ++ "\n")
      return 0

/-! ## The conversation -/

/-- A conversation that is under way. -/
structure Conversation where
  options : Console.Repl.Options
  asking : Console.Repl.Asking
  session : Calculator String
  /-- Whether the prompt is shown although nobody is typing. -/
  showsPrompt : Bool
  /-- The file of the line history. -/
  historyPath : Option String

/-- Carries out an event. -/
def perform : Event String → m Unit
  | .out text => Host.out text
  | .err text => Host.err text
  | .store path snapshot => storeSaved (some (path, snapshot))

/-- Carries out events in their order. -/
def performAll : List (Event String) → m Unit
  | [] => return ()
  | e :: es => do
      perform e
      performAll es

/-- The first lines of the conversation. -/
def introduce (settings : Settings) (target : Option String) (p : Palette) : m Unit :=
  performAll (Console.Repl.opening { palette := p, groupDigits := settings.repl.groupDigits }
    (openSession settings target))

/-- Opens the conversation. -/
def greet (here : Surroundings) (settings : Settings) (target : Option String) (p : Palette) :
    m Conversation := do
  let historyPath := Console.historyPath? here.home (here.historyPath.or settings.repl.historyPath)
  introduce settings target p
  match historyPath with
  | some path =>
      if ← Files.isPresent path then
        match ← Files.read path with
        | .ok _ => pure ()
        | .error e => warn p ("failed to load history from " ++ path ++ ": " ++ e.message)
  | none => pure ()
  return {
    options := { palette := p, groupDigits := settings.repl.groupDigits }
    asking :=
      { prompt := p.paint .green settings.repl.prompt ++ " ", suggests := settings.repl.preview }
    session := openSession settings target
    showsPrompt := here.simpleTerminal
    historyPath }

/-- Asks for a line. -/
def ask (c : Conversation) : m Unit :=
  if c.showsPrompt then Host.out c.asking.prompt else pure ()

/-- One turn of the conversation.  Answers with the conversation after it. -/
def converse (c : Conversation) (turn : Console.Turn) :
    m (Conversation × Console.Repl.Course) := do
  let taken := Console.Repl.take c.options c.asking c.session turn
  performAll taken.events
  return ({ c with session := taken.session }, taken.course)

/-- The turns of a conversation, up to the one that ends it.  Answers whether it came to
an end; it breaks off at a line that cannot be made out. -/
def converseAll (c : Conversation) : List Console.Turn → m Bool
  | [] => do
      ask c
      return true
  | turn :: turns => do
      ask c
      match ← converse c turn with
      | (c, .goesOn) => converseAll c turns
      | (_, .over) => return true
      | (_, .broken) => return false

/-- Makes the directory of the history file. -/
def prepareHistory (p : Palette) (path : String) : m Unit := do
  match Path.parent? path with
  | some parent =>
      let made ← if parent.isEmpty then pure (.ok ()) else Files.makeDirectories parent
      match made with
      | .ok () => return ()
      | .error e => warn p ("failed to create history directory " ++ parent ++ ": " ++ e.message)
  | none => return ()

/-- Writes the line history, if there are lines to keep. -/
def keepHistory (p : Palette) (path : String) (kept : Option String) : m Unit := do
  match kept with
  | some contents =>
      match ← Files.write path contents with
      | .ok () => return ()
      | .error e => warn p ("failed to save history to " ++ path ++ ": " ++ e.message)
  | none => return ()

/-- Closes the conversation. -/
def takeLeave (p : Palette) (historyPath kept : Option String) : m Unit := do
  match historyPath with
  | some path => do
      prepareHistory p path
      keepHistory p path kept
  | none => return ()

/-- The exit code after a conversation that broke off. -/
def brokenOff : UInt32 := 101

/-! ## From the arguments on -/

/-- What is left to do once the settings are known: hold a conversation, or nothing but
to exit with a code. -/
inductive Pending where
  | conversation (c : Conversation)
  | done (code : UInt32)

/-- Opens the conversation, if there is an editor to hold it with. -/
def approach (here : Surroundings) (settings : Settings) (target : Option String) (p : Palette)
    (refusal : Option String) : m Pending := do
  match refusal with
  | some message =>
      introduce settings target p
      complain p "error:" message
      return .done 1
  | none => return .conversation (← greet here settings target p)

/-- Does what the arguments ask for, up to the first line of a conversation. -/
def begin (here : Surroundings) (args : List String) (refusal : Option String) :
    m Pending := do
  match Arguments.request args with
  | .version =>
      Host.out (Console.Repl.programName ++ "\n")
      return .done 0
  | .misuse =>
      Host.err (Arguments.usage ++ "\n")
      return .done 2
  | .run options command =>
      match ← loadSettings here options.config with
      | .error fault =>
          complain ⟨!here.noColor⟩ "error:" fault.message
          return .done 1
      | .ok (settings, target) =>
          let p : Palette := ⟨settings.repl.color && !options.noColor && !here.noColor⟩
          match command with
          | .repl => approach here settings target p refusal
          | .eval inputs => return .done (← evalInputs p (openSession settings target) inputs)
          | .parse input => return .done (← showTokens p input)
          | .init => return .done (← makeSettings p)

/-- The whole program, given all that an editor does.  Answers with the exit code. -/
def run (here : Surroundings) (args : List String) (editor : Console.Editor) : m UInt32 := do
  match ← begin here args editor.refusal with
  | .done code => return code
  | .conversation c => do
      if ← converseAll c editor.turns then
        takeLeave c.options.palette c.historyPath editor.kept
        return 0
      else return brokenOff

end App

end Abacus
