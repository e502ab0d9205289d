import Abacus.App
import Abacus.Files.Tree

/-!
# A machine in memory

A tree of files and two texts, which grow as the program writes to its outputs.  The
program runs on it like on any other host, so that what it does is a value.
-/

namespace Abacus.App

/-- The state of the machine. -/
structure Machine where
  files : FileTree
  stdout : String := ""
  stderr : String := ""

namespace Machine

/-- An operation on the files. -/
def onFiles {α : Type} (act : StateM FileTree α) : StateM Machine α := fun machine =>
  let (a, files) := act.run machine.files
  (a, { machine with files })

instance : Host (StateM Machine) where
  kind path := onFiles (Files.kind path)
  read path := onFiles (Files.read path)
  write path contents := onFiles (Files.write path contents)
  makeDirectory path := onFiles (Files.makeDirectory path)
  out text := modify fun machine => { machine with stdout := machine.stdout ++ text }
  err text := modify fun machine => { machine with stderr := machine.stderr ++ text }

/-- Runs the program. -/
def run (machine : Machine) (here : Surroundings) (args : List String)
    (editor : Console.Editor) : UInt32 × Machine :=
  (App.run here args editor : StateM Machine UInt32).run machine

end Machine

end Abacus.App
