import Abacus.Toml.Parser
import Abacus.Toml.Printer

/-!
# Settings

A settings file has two sections: `repl`, which says how the console looks, and
`state`, which holds the snapshot that new sessions start from.  Whatever is not in
the file has a default, and whatever else is in the file does not matter.

## How a section may be written

A section is a table of named fields.  It may also be an array of the fields in their
order, of which the end may be left out.  A date carries no fields, so it is a section
in which everything has its default.  Any other value is a fault, and so is a field of
the wrong kind.

## Storing a snapshot

`withSnapshot` changes the field `last_state` of the section `state` and nothing else.
A `state` that is no table is replaced by one.
-/

namespace Abacus

/-- How the console looks. -/
structure ReplSettings where
  prompt : String := "zappac>"
  color : Bool := true
  /-- Whether the result of a line is shown while it is being typed. -/
  preview : Bool := true
  /-- Whether decimal results have their digits grouped. -/
  groupDigits : Bool := false
  /-- The name of the history file, if the user chose one. -/
  historyPath : Option String := none
  deriving DecidableEq, Repr

/-- Settings. -/
structure Settings where
  repl : ReplSettings := {}
  /-- The snapshot that new sessions start from. -/
  lastState : String := ""
  deriving DecidableEq, Repr

namespace Settings

open Toml (Value)

/-- The fields of a section, by name. -/
def fields? (names : List String) : Value → Option (List (String × Value))
  | .table entries => some entries
  | .array elements => some (names.zip elements)
  | .datetime _ => some []
  | _ => none

/-- A text. -/
def text? : Value → Option String
  | .string s => some s
  | _ => none

/-- A yes or no. -/
def flag? : Value → Option Bool
  | .boolean b => some b
  | _ => none

/-- The field of a name, read in a way, or its default if it is missing. -/
def field? {α : Type} (read : Value → Option α) (default : α) (name : String)
    (fields : List (String × Value)) : Option α :=
  match fields.lookup name with
  | some v => read v
  | none => some default

/-- The fields of the section `repl`, in their order. -/
def replFields : List String := ["prompt", "color", "preview", "group_digits", "history_path"]

/-- The section `repl`. -/
def repl? (v : Value) : Option ReplSettings := do
  let fields ← fields? replFields v
  let plain : ReplSettings := {}
  let prompt ← field? text? plain.prompt "prompt" fields
  let color ← field? flag? plain.color "color" fields
  let preview ← field? flag? plain.preview "preview" fields
  let groupDigits ← field? flag? plain.groupDigits "group_digits" fields
  let historyPath ← field? (fun v => (text? v).map some) none "history_path" fields
  return { prompt, color, preview, groupDigits, historyPath }

/-- The section `state`: the snapshot. -/
def state? (v : Value) : Option String := do
  let fields ← fields? ["last_state"] v
  field? text? "" "last_state" fields

/-- The settings in a table. -/
def ofTable? (table : Toml.Table) : Option Settings := do
  let repl ← field? repl? {} "repl" table
  let lastState ← field? state? "" "state" table
  return { repl, lastState }

/-- The settings in a text. -/
def parse? (text : String) : Option Settings := do
  let table ← Toml.Parser.parse? text
  ofTable? table

/-- The fields of the section `state` of a table, if it is a table itself. -/
def stateFields (table : Toml.Table) : Toml.Table :=
  match Entries.get? "state" table with
  | some (.table fields) => fields
  | _ => []

/-- A table with another snapshot. -/
def withSnapshot (table : Toml.Table) (snapshot : String) : Toml.Table :=
  Entries.insert "state"
    (.table (Entries.insert "last_state" (.string snapshot) (stateFields table))) table

/-- The lines of a settings file that spells out the defaults. -/
def templateLines : List String :=
  ["# Zappac Configuration",
   "",
   "[repl]",
   "prompt = \"zappac>\"",
   "color = true",
   "# Show the result of the current line while typing",
   "preview = true",
   "# Write decimal results as 1,234,567",
   "group_digits = false",
   "# history_path = \"~/.zappac/repl_history\"",
   "",
   "# Written by save(name); seeds the variables of new sessions",
   "[state]",
   "# last_state = \"\""]

/-- A settings file that spells out the defaults. -/
def template : String := String.join (templateLines.map (· ++ "\n"))

end Settings

end Abacus
