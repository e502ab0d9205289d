import Abacus.Files
import Abacus.Settings
import Abacus.Toml.Canonical

/-!
# Settings files

Where settings are found, how they are loaded, and how a snapshot is stored in them.

The settings of a project stand in a file `zappac.toml` in its directory or in one
above it; the nearest one counts.  Without any, the settings of the user count, in
their home directory.

Storing a snapshot reads the file again and keeps everything else that is in it.  A
file that is missing is made, with the directories it needs.
-/

namespace Abacus.Settings

/-- The name of a settings file. -/
def fileName : String := "zappac.toml"

/-- Why settings could not be loaded or stored. -/
inductive Fault where
  | read (path : String) (e : FileError)
  /-- The text of the file is no settings. -/
  | parse (path : String)
  | write (path : String) (e : FileError)
  deriving DecidableEq, Repr

/-- What the user is told.  Of a text that is no settings, only that is said here: where the
fault lies in it, and what was expected there, is left out. -/
def Fault.message : Fault → String
  | .read path e => s!"cannot read '{path}': {e.message}"
  | .parse path => s!"invalid toml in '{path}'"
  | .write path e => s!"cannot write '{path}': {e.message}"

/-- The settings file of a user. -/
def userPath (home : String) : String :=
  Path.join (Path.join (Path.join home ".config") "zappac") fileName

variable {m : Type → Type} [Monad m] [Files m]

/-- The first path at which there is a file. -/
def firstFile : List String → m (Option String)
  | [] => return none
  | path :: paths => do
      if ← Files.isFile path then return some path else firstFile paths

/-- The paths at which settings are looked for, given the directory to start in and the
home directory. -/
def candidates (start home : Option String) : List String :=
  (match start with
    | some dir => (Path.ancestors dir).map fun d => Path.join d fileName
    | none => []) ++
  (home.map userPath).toList

/-- The settings file that counts. -/
def find (start home : Option String) : m (Option String) :=
  firstFile (candidates start home)

/-- The settings in a file. -/
def load (path : String) : m (Except Fault Settings) := do
  match ← Files.read path with
  | .error e => return .error (.read path e)
  | .ok text =>
      match parse? text with
      | some s => return .ok s
      | none => return .error (.parse path)

/-- The table in a file, in canonical form; that of a file that is not there is empty. -/
def loadTable (path : String) : m (Except Fault Toml.Table) := do
  if ← Files.isPresent path then
    match ← Files.read path with
    | .error e => return .error (.read path e)
    | .ok text =>
        match (Toml.Parser.parse? text).bind Toml.Table.canonical? with
        | some table => return .ok table
        | none => return .error (.parse path)
  else return .ok []

/-- Writes a file, in a directory that is made if it is missing. -/
def writeFile (path contents : String) : m (Except Fault Unit) := do
  let parent := (Path.parent? path).getD ""
  let made ← if parent.isEmpty then pure (.ok ()) else Files.makeDirectories parent
  match made with
  | .error e => return .error (.write parent e)
  | .ok () =>
      match ← Files.write path contents with
      | .error e => return .error (.write path e)
      | .ok () => return .ok ()

/-- Stores a snapshot in a settings file. -/
def store (path snapshot : String) : m (Except Fault Unit) := do
  match ← loadTable path with
  | .error fault => return .error fault
  | .ok table => writeFile path (Toml.print (withSnapshot table snapshot))

end Abacus.Settings
