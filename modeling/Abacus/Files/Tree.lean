import Abacus.Files
import Abacus.Text.Bytes

/-!
# A tree of files

The files of a machine held in memory: every place that exists, given by the names on
the way to it from the root, and for a file its contents.  The root always exists.

A path is followed from the working directory or the root, name by name.  Every name
on the way has to stand for a directory, also when the next component is empty, `.`
or `..`; only the last one may be missing, which is how new files come about.

A name has at most 255 bytes and a path at most 4095.  There are no symbolic links and no
permissions, and every file holds text.
-/

namespace Abacus

/-- The names on the way from the root to a place. -/
abbrev Place := List String

/-- The files and directories of a machine. -/
structure FileTree where
  /-- The directory in which relative paths start. -/
  workingDirectory : Place := []
  /-- The places that exist below the root, with the contents of those that are
  files. -/
  nodes : List (Place × Option String) := []

namespace FileTree

/-- What stands at a place, if anything does. -/
def kindAt? (t : FileTree) (place : Place) : Option FileKind :=
  if place = [] then some .directory
  else
    match t.nodes.lookup place with
    | some (some _) => some .file
    | some none => some .directory
    | none => none

/-- The contents of the file at a place. -/
def contentsAt? (t : FileTree) (place : Place) : Option String :=
  (t.nodes.lookup place).join

/-- Puts a file or a directory at a place. -/
def put (t : FileTree) (place : Place) (node : Option String) : FileTree :=
  { t with nodes := (place, node) :: t.nodes.filter fun n => n.1 ≠ place }

/-- The number of bytes that a name may have. -/
def nameLimit : Nat := 255

/-- The number of bytes that a path may have. -/
def pathLimit : Nat := 4095

/-- Follows the components of a path from a place. -/
def follow (t : FileTree) (place : Place) : List (List Char) → Except FileError Place
  | [] => .ok place
  | name :: names =>
      match t.kindAt? place with
      | none => .error .notFound
      | some .file => .error .notDirectory
      | some .directory =>
          if name = [] ∨ name = ['.'] then t.follow place names
          else if name = ['.', '.'] then t.follow place.dropLast names
          else if nameLimit < Text.byteSize name then .error .nameTooLong
          else t.follow (place ++ [String.ofList name]) names

/-- The place that a path leads to.  The empty path leads nowhere. -/
def place (t : FileTree) (path : String) : Except FileError Place :=
  if path.toList.contains '\x00' then .error .nulInPath
  else if path.isEmpty then .error .notFound
  else if pathLimit < Text.size path then .error .nameTooLong
  else t.follow (if Path.isAbsolute path then [] else t.workingDirectory) (Path.split path.toList)

/-- What stands at a path. -/
def kind (t : FileTree) (path : String) : Except FileError FileKind :=
  match t.place path with
  | .error e => .error e
  | .ok place =>
      match t.kindAt? place with
      | some k => .ok k
      | none => .error .notFound

/-- The contents of the file at a path. -/
def read (t : FileTree) (path : String) : Except FileError String :=
  match t.place path with
  | .error e => .error e
  | .ok place =>
      match t.kindAt? place with
      | none => .error .notFound
      | some .directory => .error .isDirectory
      | some .file => .ok ((t.contentsAt? place).getD "")

/-- The tree after a file has been written. -/
def write (t : FileTree) (path contents : String) : Except FileError FileTree :=
  match t.place path with
  | .error e => .error e
  | .ok place =>
      if t.kindAt? place = some .directory then .error .isDirectory
      else .ok (t.put place (some contents))

/-- The tree after a directory has been made. -/
def makeDirectory (t : FileTree) (path : String) : Except FileError FileTree :=
  -- A slash at the end does not ask for the directory to be there already.
  let path := String.ofList (path.toList.reverse.dropWhile (· == '/')).reverse
  match t.place path with
  | .error e => if path.isEmpty then .error .alreadyExists else .error e
  | .ok place =>
      if (t.kindAt? place).isSome then .error .alreadyExists else .ok (t.put place none)

end FileTree

/-- Changes a tree if that succeeds. -/
def FileTree.change (f : FileTree → Except FileError FileTree) :
    StateM FileTree (Except FileError Unit) := do
  match f (← get) with
  | .ok t => set t; return .ok ()
  | .error e => return .error e

instance : Files (StateM FileTree) where
  kind path := do return (← get).kind path
  read path := do return (← get).read path
  write path contents := FileTree.change fun t => t.write path contents
  makeDirectory path := FileTree.change fun t => t.makeDirectory path

end Abacus
