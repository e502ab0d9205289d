import Abacus.Console.Repl
import Abacus.Console.Typing

/-!
# The line editor

The lines of a conversation are entered with an editor, which is not a part of this program.
On a terminal it moves the cursor, takes keys and keeps old lines; where the input is piped
in, it reads a line and shows nothing.  So the editor is given as data: what it writes while a
line is being typed, and what comes of asking it for the line.

## Who writes what

An editor knows nothing of tokens and results.  It asks the program for the prompt, for the
line in colour and for what to suggest after it, and writes them where it likes, among
control sequences of its own.  A suggestion is the result of a preview, which the session
takes note of, so that asking for it is no idle question.

## Ways to end

An interrupted line is followed by the next one.  The conversation is over when the input has
ended, when a line cannot be read, which is worth a message, and when a line says so.  It
breaks off where a line cannot even be made out.
-/

namespace Abacus.Console

/-- Something that the editor writes while a line is being typed. -/
inductive Display where
  /-- What is its own: moves of the cursor, or completions to choose from. -/
  | own (text : String)
  | prompt
  /-- The line as far as it has been typed. -/
  | line (text : String)
  /-- What is suggested after the line, with the cursor at this byte of it. -/
  | suggestion (text : String) (cursor : Nat)
  deriving DecidableEq, Repr

/-- What comes of asking for a line. -/
inductive Reply where
  | line (text : String)
  /-- The user has given up the line. -/
  | interrupted
  /-- There is no more input. -/
  | ended
  /-- No line could be read, for this reason. -/
  | failed (message : String)
  /-- The line cannot be made out. -/
  | garbled
  deriving DecidableEq, Repr

/-- What happens when the editor is asked for a line. -/
structure Turn where
  displays : List Display := []
  reply : Reply
  deriving DecidableEq, Repr

/-- A line that is piped in, if it can be made out. -/
def Turn.piped : Option String → Turn
  | some line => { reply := .line line }
  | none => { reply := .garbled }

/-- What an editor does. -/
structure Editor where
  /-- Why there is none after all, if that is so. -/
  refusal : Option String := none
  /-- What happens each time it is asked.  After that the input has ended. -/
  turns : List Turn := []
  /-- What the file of the line history is to hold in the end, if there are lines to keep. -/
  kept : Option String := none
  deriving DecidableEq, Repr

/-- Lines that are piped in.  None of them is kept. -/
def Editor.piped (lines : List (Option String)) : Editor := { turns := lines.map Turn.piped }

instance : Coe (List (Option String)) Editor := ⟨Editor.piped⟩

namespace Repl

variable {η : Type}

/-- The course of a conversation. -/
inductive Course where
  | goesOn
  | over
  /-- It ends without leave being taken. -/
  | broken
  deriving DecidableEq, Repr

/-- What a turn leads to. -/
structure Taken (η : Type) where
  session : Calculator η
  events : List (Event η)
  course : Course := .goesOn

/-- How lines are asked for. -/
structure Asking where
  /-- What stands in front of a line. -/
  prompt : String
  /-- Whether results are suggested. -/
  suggests : Bool

/-- What the editor writes, with what it has asked for. -/
def display (p : Palette) (a : Asking) (s : Calculator η) :
    Display → Calculator η × List (Event η)
  | .own text => (s, [.out text])
  | .prompt => (s, [.out a.prompt])
  | .line text => (s, [.out (Typing.highlight p text)])
  | .suggestion text cursor =>
      let (after, hint) := Typing.hint s a.suggests text cursor
      (after, hint.toList.map fun result => .out (p.paint .gray result))

/-- All that the editor writes. -/
def displayAll (p : Palette) (a : Asking) (s : Calculator η) :
    List Display → Calculator η × List (Event η)
  | [] => (s, [])
  | d :: ds =>
      let (s, events) := display p a s d
      let (s, more) := displayAll p a s ds
      (s, events ++ more)

/-- What comes of asking for a line is dealt with. -/
def receive (o : Options) (s : Calculator η) : Reply → Taken η
  | .line line =>
      let next := step o s line
      { session := next.session, events := next.events
        course := if next.goesOn then .goesOn else .over }
  | .interrupted =>
      { session := s, events := [.out (o.palette.paint .gray "(Ctrl-D to exit)" ++ "\n")] }
  | .ended => { session := s, events := [], course := .over }
  | .failed message =>
      { session := s, events := [complaint o.palette "error:" message], course := .over }
  | .garbled => { session := s, events := [], course := .broken }

/-- A turn: a line is typed, and then it is dealt with. -/
def take (o : Options) (a : Asking) (s : Calculator η) (turn : Turn) : Taken η :=
  let (s, events) := displayAll o.palette a s turn.displays
  let taken := receive o s turn.reply
  { taken with events := events ++ taken.events }

end Repl

end Abacus.Console
