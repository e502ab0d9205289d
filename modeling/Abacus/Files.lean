import Abacus.Files.Path

/-!
# Access to files

The little that this program needs of a file system, as operations of a monad.  The
program is written against these operations, so it can run against the files of the
machine or against a tree of files held in memory.
-/

namespace Abacus

/-- Why an operation on files failed. -/
inductive FileError where
  | notFound
  | notDirectory
  | isDirectory
  | alreadyExists
  /-- A name, or the path as a whole, has more bytes than the system takes. -/
  | nameTooLong
  /-- The character with the number zero, which ends every path, stands inside one. -/
  | nulInPath
  /-- Another reason, as the system words it. -/
  | other (message : String)
  deriving DecidableEq, Repr

/-- What the user is told, with the number that the system gives the error. -/
def FileError.message : FileError → String
  | .notFound => "No such file or directory (os error 2)"
  | .notDirectory => "Not a directory (os error 20)"
  | .isDirectory => "Is a directory (os error 21)"
  | .alreadyExists => "File exists (os error 17)"
  | .nameTooLong => "File name too long (os error 36)"
  | .nulInPath => "file name contained an unexpected NUL byte"
  | .other message => message

/-- What can stand at a path. -/
inductive FileKind where
  | file
  | directory
  deriving DecidableEq, Repr

/-- Operations on files. -/
class Files (m : Type → Type) where
  /-- What stands at a path. -/
  kind : String → m (Except FileError FileKind)
  /-- The contents of a file. -/
  read : String → m (Except FileError String)
  /-- Makes a file with these contents, in place of what it held before. -/
  write : String → String → m (Except FileError Unit)
  /-- Makes a directory in one that is there. -/
  makeDirectory : String → m (Except FileError Unit)

namespace Files

variable {m : Type → Type} [Monad m] [Files m]

/-- Whether anything stands at a path. -/
def isPresent (path : String) : m Bool := do
  match ← kind path with
  | .ok _ => return true
  | .error _ => return false

/-- Whether a file stands at a path. -/
def isFile (path : String) : m Bool := do
  match ← kind path with
  | .ok .file => return true
  | _ => return false

/-- Whether a directory stands at a path. -/
def isDirectory (path : String) : m Bool := do
  match ← kind path with
  | .ok .directory => return true
  | _ => return false

/-- Makes one directory; one that is there already is fine. -/
def ensureDirectory (path : String) : m (Except FileError Unit) := do
  match ← makeDirectory path with
  | .ok () => return .ok ()
  | .error e => if ← isDirectory path then return .ok () else return .error e

/-- Makes the first of some directories.  Each is inside the next, and those that are
missing are made first. -/
def makeDirectoriesIn : List String → m (Except FileError Unit)
  | [] => return .error .notFound
  | path :: parents => do
      if path.isEmpty then return .ok ()
      match ← ensureDirectory path with
      | .error .notFound =>
          match ← makeDirectoriesIn parents with
          | .ok () => ensureDirectory path
          | .error e => return .error e
      | result => return result

/-- Makes a directory and all directories above it that are missing. -/
def makeDirectories (path : String) : m (Except FileError Unit) :=
  makeDirectoriesIn (Path.ancestors path)

end Files

end Abacus
