import Abacus.Toml

/-!
# How a settings file makes up tables

A settings file is a list of statements: a header opens a table, and the entries below
it go there.  Headers and keys may be paths, which open the tables they pass through.
`Document.build?` carries the statements out, or finds that they contradict each other.

## Who may add to a table

A table remembers how it came to be, and that decides who may add to it.

* A table opened by its own header is closed for good when the next header comes,
  except that tables may still be put inside it by headers.
* A table that only came to be because the path of a header passes through it may be
  opened by a header of its own later, once.
* A table that came to be through the key of an entry may be added to by more such
  keys, but no header may open it.

A table or array that is written as a value is complete.  No name may be given a value
twice.

## Order

The entries of a table stand in the order in which the file first names them.  A table
that a header passed through before it was opened by its own counts as named by its
own header.
-/

namespace Abacus.Toml

/-- How a table came to be. -/
inductive Origin where
  /-- By its own header. -/
  | header
  /-- By a header further down. -/
  | passing
  /-- By the key of an entry. -/
  | key
  deriving DecidableEq, Repr

/-- What a name stands for while the file is read. -/
inductive Item where
  /-- A value that is complete. -/
  | value (v : Value)
  | table (origin : Origin) (entries : List (String × Item))
  /-- An array of tables, of which the last one is open; it comes first. -/
  | tables (newestFirst : List (List (String × Item)))

/-- The entries of a table while the file is read. -/
abbrev Items := List (String × Item)

/-- An entry: the path of its key, the last part of the key, and the value. -/
structure Assignment where
  path : List String
  key : String
  value : Value

/-- What a header opens. -/
inductive Header where
  /-- A table. -/
  | table
  /-- A new element of an array of tables. -/
  | element
  deriving DecidableEq, Repr

/-- A header and the entries below it. -/
structure Section where
  header : Header
  path : List String
  key : String
  assignments : List Assignment

namespace Document

/-- Lets a name stand for another item.  A new name comes last. -/
def put (name : String) (item : Item) : Items → Items
  | [] => [(name, item)]
  | (key, old) :: entries =>
      if key = name then (key, item) :: entries else (key, old) :: put name item entries

/-- The entries without that of a name. -/
def remove (name : String) (entries : Items) : Items := entries.filter fun e => e.1 != name

/-- Gives a name a value that it does not have yet. -/
def define? (key : String) (v : Value) (entries : Items) : Option Items :=
  match Entries.get? key entries with
  | none => some (put key (.value v) entries)
  | some _ => none

/-- Changes the table that a path leads to from some entries.  The tables on the way
are made if they are missing; in an array of tables the way leads through the newest.
`origin` is how a missing table comes to be, and `enters` tells which tables may be
entered. -/
def update? (origin : Origin) (enters : Origin → Bool) (f : Origin → Items → Option Items) :
    Origin → List String → Items → Option Items
  | here, [], entries => f here entries
  | _, name :: path, entries =>
      match Entries.get? name entries with
      | none =>
          (update? origin enters f origin path []).map fun inner =>
            put name (.table origin inner) entries
      | some (.table there inner) =>
          if enters there then
            (update? origin enters f there path inner).map fun inner =>
              put name (.table there inner) entries
          else none
      | some (.tables (newest :: older)) =>
          (update? origin enters f .header path newest).map fun newest =>
            put name (.tables (newest :: older)) entries
      | some (.tables []) => none
      | some (.value _) => none

/-- Puts an entry into a table.  A key with a path has to end in a table that came to be
through such a key. -/
def assign? (entries : Items) (a : Assignment) : Option Items :=
  update? .key (· != .header)
    (fun origin inner =>
      if a.path.isEmpty || origin == .key then define? a.key a.value inner else none)
    .header a.path entries

/-- Puts some entries into a table, one after the other. -/
def assignAll? (entries : Items) (as : List Assignment) : Option Items :=
  as.foldlM assign? entries

/-- Opens what a header names among the entries of the table around it, and fills it. -/
def openIn? (s : Section) (around : Items) : Option Items :=
  match s.header, Entries.get? s.key around with
  | .table, none => do
      let inner ← assignAll? [] s.assignments
      return put s.key (.table .header inner) around
  | .table, some (.table .passing entries) => do
      let inner ← assignAll? entries s.assignments
      return put s.key (.table .header inner) (remove s.key around)
  | .table, some _ => none
  | .element, none => do
      let inner ← assignAll? [] s.assignments
      return put s.key (.tables [inner]) around
  | .element, some (.tables elements) => do
      let inner ← assignAll? [] s.assignments
      return put s.key (.tables (inner :: elements)) around
  | .element, some _ => none

/-- Carries out a section. -/
def open? (root : Items) (s : Section) : Option Items :=
  update? .passing (fun _ => true) (fun _ around => openIn? s around) .header s.path root

mutual

/-- The value of an item. -/
def itemValue : Item → Value
  | .value v => v
  | .table _ entries => .table (entryValues entries)
  | .tables newestFirst => .array (tableValues newestFirst).reverse

/-- The values of the entries of a table. -/
def entryValues : List (String × Item) → List (String × Value)
  | [] => []
  | (key, item) :: es => (key, itemValue item) :: entryValues es

/-- The values of some tables. -/
def tableValues : List (List (String × Item)) → List Value
  | [] => []
  | t :: ts => .table (entryValues t) :: tableValues ts

end

/-- The table that a file makes up: the entries before the first header, and the
sections. -/
def build? (assignments : List Assignment) (sections : List Section) : Option Table := do
  let root ← assignAll? [] assignments
  let root ← sections.foldlM open? root
  return entryValues root

/-- The table that is written as a value with these entries. -/
def inline? (assignments : List Assignment) : Option Value := do
  let entries ← assignAll? [] assignments
  return .table (entryValues entries)

end Document

end Abacus.Toml
