import Abacus.Text.Blank
import Abacus.Environment
import Abacus.Json
import Abacus.Json.Read
import Abacus.Json.Number

/-!
# Snapshots

A snapshot is an environment written down as one line of JSON, and the seed from
which a later session starts.  It is an object with the members `variables`, `output`
and `saved`, in this order.

## Reading a seed

Seeds may have been edited by hand, so reading is more liberal than writing.

* A seed of blanks is a fresh start.
* The members may come in any order and be left out; unknown members are passed
  over.  A known member must not come twice.
* The three parts may also be given as a list, of which the end may be left out.
* The output format may be given by name or as an object with that name and `null`.

Within the variables a repeated name is no fault: the last value holds.
-/

namespace Abacus.Snapshot

open Abacus.Json
open Abacus.Text (Reader)

/-- Bindings as a JSON object. -/
def ofVariables (bindings : Dict Number) : Json :=
  .object (bindings.entries.map fun e =>
    (e.1, match numeralOf? e.2 with
      | some n => .number n
      | none => .null))

/-- An environment as a JSON object. -/
def toJson (env : Environment) : Json :=
  .object
    [("variables", ofVariables env.bindings),
     ("output", .string env.radix.name),
     ("saved", .object (env.slots.entries.map fun e => (e.1, ofVariables e.2)))]

/-- The snapshot of an environment. -/
def write (env : Environment) : String := (toJson env).print

/-- The value of a variable. -/
def value : Reader Number := fun cs => do
  let (n, cs) ← Read.numeral cs
  let x ← number? n
  return (x, cs)

/-- The variables. -/
def bindings : Reader (Dict Number) := fun cs => do
  let (entries, cs) ← Read.object (fun _ => value) cs
  return (Dict.ofList entries, cs)

/-- The save slots. -/
def saved : Reader (Dict (Dict Number)) := fun cs => do
  let (entries, cs) ← Read.object (fun _ => bindings) cs
  return (Dict.ofList entries, cs)

/-- The name of an output format. -/
def radixName : Reader Radix := fun cs => do
  let (name, cs) ← Read.string cs
  let radix ← Radix.ofName? name
  return (radix, cs)

/-- The word `null`, after blanks. -/
def null : Reader Unit := fun cs => Text.Reader.word ['n', 'u', 'l', 'l'] (Read.skipSpace cs)

/-- The output format. -/
def output : Reader Radix := fun cs =>
  match Read.skipSpace cs with
  | '\x7b' :: cs => do
      let ((radix, _), cs) ← Read.member radixName (fun _ => null) cs
      let (_, cs) ← Read.char '\x7d' cs
      return (radix, cs)
  | cs => radixName cs

/-- A part of a seed. -/
inductive Part where
  | bindings (d : Dict Number)
  | output (r : Radix)
  | saved (d : Dict (Dict Number))
  /-- A member without meaning here. -/
  | other

/-- The member under a key. -/
def part (key : String) : Reader Part := fun cs =>
  match key with
  | "variables" => (bindings cs).map fun p => (.bindings p.1, p.2)
  | "output" => (output cs).map fun p => (.output p.1, p.2)
  | "saved" => (saved cs).map fun p => (.saved p.1, p.2)
  | _ => (Read.ignored cs).map fun p => (.other, p.2)

/-- Whether a known member comes twice. -/
def hasRepeated (parts : List (String × Part)) : Bool :=
  ["variables", "output", "saved"].any fun key => 1 < (parts.map Prod.fst).count key

/-- An environment with one more part. -/
def withPart (env : Environment) : Part → Environment
  | .bindings d => { env with bindings := d }
  | .output r => { env with radix := r }
  | .saved d => { env with slots := d }
  | .other => env

/-- The environment that some parts make up. -/
def assemble (parts : List Part) : Environment := parts.foldl withPart {}

/-- A seed written as an object. -/
def members : Reader Environment := fun cs => do
  let (parts, cs) ← Read.object part cs
  if hasRepeated parts then none
  return (assemble (parts.map Prod.snd), cs)

/-- The parts of a seed written as a list, after the first ones: the expected keys are
those still to come. -/
def elementsAfter : List String → Reader (List Part)
  | [], cs => (Read.char ']' cs).map fun p => ([], p.2)
  | key :: keys, cs =>
      match Read.skipSpace cs with
      | ']' :: cs => some ([], cs)
      | ',' :: cs => do
          let (x, cs) ← part key cs
          let (xs, cs) ← elementsAfter keys cs
          return (x :: xs, cs)
      | _ => none

/-- A seed written as a list. -/
def elements : Reader Environment := fun cs => do
  let (_, cs) ← Read.char '[' cs
  match Read.skipSpace cs with
  | ']' :: cs => return (assemble [], cs)
  | cs => do
      let (x, cs) ← part "variables" cs
      let (xs, cs) ← elementsAfter ["output", "saved"] cs
      return (assemble (x :: xs), cs)

/-- A seed that is not blank. -/
def environment : Reader Environment := fun cs =>
  match Read.skipSpace cs with
  | '[' :: cs => elements ('[' :: cs)
  | cs => members cs

/-- The environment that a seed describes, if it describes one. -/
def read? (seed : String) : Option Environment :=
  if Text.isBlankText seed then some {} else Read.all environment seed

/-- The environment that a session starts from: a seed that cannot be read is a fresh
start too.  Why it could not be read would be a line of the log, which is left out here. -/
def seeded (seed : String) : Environment := (read? seed).getD {}

end Abacus.Snapshot
