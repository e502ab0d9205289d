import Abacus.App
import Abacus.Console.Input

/-!
# The command line

The machine that the program really runs on, as a `Host`, and the loop that reads the
lines of a conversation.  Everything else is decided in `Abacus.App`.

A prompt is shown to a person; when the input is piped in, only if the conversation says
so.  There is no editor here: lines are read from the standard input also where they are
typed, so that nothing is shown of them and none are kept.
-/

namespace Abacus.App

/-- The number and the text that the system has for an error. -/
def describe : IO.Error → Option (UInt32 × String)
  | .noFileOrDirectory _ code text => some (code, text)
  | .alreadyExists _ code text => some (code, text)
  | .inappropriateType _ code text => some (code, text)
  | .permissionDenied _ code text => some (code, text)
  | .invalidArgument _ code text => some (code, text)
  | .resourceExhausted _ code text => some (code, text)
  | .noSuchThing _ code text => some (code, text)
  | .otherError code text => some (code, text)
  | _ => none

/-- The cause of an error of the system. -/
def cause (e : IO.Error) : FileError :=
  match describe e with
  | some (2, _) => .notFound
  | some (17, _) => .alreadyExists
  | some (20, _) => .notDirectory
  | some (21, _) => .isDirectory
  | some (code, text) => .other (text ++ " (os error " ++ toString code ++ ")")
  | none => .other (toString e)

/-- Carries out an operation of the system. -/
def attempt {α : Type} (act : IO α) : IO (Except FileError α) := do
  try
    return .ok (← act)
  catch e =>
    return .error (cause e)

/-- Carries out an operation of the system at a path, if it is one that the system can be
given. -/
def attemptAt {α : Type} (path : String) (act : IO α) : IO (Except FileError α) :=
  if path.toList.contains '\x00' then return .error .nulInPath else attempt act

/-- What stands at a path.  A directory shows itself when it is read from; what cannot
be opened at all is taken for a file. -/
def kindOnDisk (path : String) : IO (Except FileError FileKind) := do
  match ← attemptAt path (IO.FS.realPath path) with
  | .error e => return .error e
  | .ok _ =>
      let peek := do
        let handle ← IO.FS.Handle.mk path .read
        discard (handle.read 1)
      match ← attempt peek with
      | .error .isDirectory => return .ok .directory
      | _ => return .ok .file

instance : Host IO where
  kind := kindOnDisk
  read path := attemptAt path (IO.FS.readFile path)
  write path contents := attemptAt path (IO.FS.writeFile path contents)
  makeDirectory path := attemptAt path (IO.FS.createDir path)
  out text := do
    let stdout ← IO.getStdout
    stdout.putStr text
    stdout.flush
  err text := do
    (← IO.getStderr).putStr text

/-- The place where the program runs. -/
def surroundings : IO Surroundings := do
  let directory ← attempt IO.currentDir
  let home ← IO.getEnv "HOME"
  return {
    directory := directory.toOption.map toString
    home := home.filter fun path => !path.isEmpty
    noColor := (← IO.getEnv "NO_COLOR").isSome
    historyPath := ← IO.getEnv "ZAPPAC_HISTORY_PATH"
    simpleTerminal := ((← IO.getEnv "TERM").map isSimpleTerminal).getD false }

/-- Why a line could not be read. -/
def readingFault (e : IO.Error) : String :=
  match describe e with
  | some _ => (cause e).message
  | none => "stream did not contain valid UTF-8"

/-- Asks for a line. -/
def nextTurn : IO Console.Turn := do
  try
    let line ← (← IO.getStdin).getLine
    return if line.isEmpty then { reply := .ended } else .piped (Console.Input.clean? line.toList)
  catch e =>
    return { reply := .failed (readingFault e) }

/-- Asks for lines until the conversation or the input ends.  Answers whether that was how
it came to an end. -/
partial def talk (c : Conversation) : IO Bool := do
  if ← (← IO.getStdin).isTty then Host.out c.asking.prompt else ask c
  match ← converse c (← nextTurn) with
  | (c, .goesOn) => talk c
  | (_, .over) => return true
  | (_, .broken) => return false

end Abacus.App

open Abacus.App in
/-- The program. -/
def main (args : List String) : IO UInt32 := do
  let here ← surroundings
  match ← begin here args none with
  | .done code => return code
  | .conversation c =>
      if ← talk c then
        takeLeave c.options.palette c.historyPath none
        return 0
      else return brokenOff
