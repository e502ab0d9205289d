import Abacus.Toml.Lexical

/-!
# Tables in canonical form

A file that is read in order to be written again is brought into canonical form first:
the entries of every table stand in the order of their names, and every date is a date.

## Dates that are spelled as tables

A date may also be given as a table inside another table or inside an array: the first
entry of such a table has the name `dateMark`, and its value is the text of the date.
Whatever else stands in the table is dropped.  The name is reserved, so a value that is
no text, or a text that is no date, is a fault.  Where the name comes later in a table
it is a name like any other, and so it is in the outermost table.

Such a text is read like a date that stands in the file itself, and nothing may follow.
-/

namespace Abacus.Toml

/-- The name that marks a table as a date. -/
def dateMark : String := "$__toml_private_datetime"

/-- The date that a text spells. -/
def Datetime.ofText? (text : String) : Option Datetime :=
  match Lexical.datetime text.toList with
  | some (d, []) => some d
  | _ => none

/-- The value under `dateMark`, if that is the first name among some entries. -/
def marked? : List (String × Value) → Option Value
  | (name, v) :: _ => if name = dateMark then some v else none
  | [] => none

/-- The date that a marked value stands for. -/
def markedDate? : Value → Option Value
  | .string text => (Datetime.ofText? text).map .datetime
  | _ => none

mutual

/-- A value in canonical form. -/
def canonical? : Value → Option Value
  | .array elements => (canonicalElements? elements).map .array
  | .table entries =>
      match marked? entries with
      | some v => markedDate? v
      | none => (canonicalEntries? entries).map .table
  | .string s => some (.string s)
  | .integer n => some (.integer n)
  | .float x => some (.float x)
  | .boolean b => some (.boolean b)
  | .datetime d => some (.datetime d)

/-- The elements of an array in canonical form. -/
def canonicalElements? : List Value → Option (List Value)
  | [] => some []
  | v :: vs => do
      let v ← canonical? v
      let vs ← canonicalElements? vs
      return v :: vs

/-- The entries of a table in canonical form. -/
def canonicalEntries? : List (String × Value) → Option (List (String × Value))
  | [] => some []
  | (key, v) :: es => do
      let v ← canonical? v
      let es ← canonicalEntries? es
      return Entries.insert key v es

end

/-- The outermost table of a file in canonical form. -/
def Table.canonical? (table : Table) : Option Table := canonicalEntries? table

/-! ## Having a canonical form -/

theorem markedDate?_eq_some_iff {v w : Value} :
    markedDate? v = some w ↔
      ∃ text d, v = .string text ∧ Datetime.ofText? text = some d ∧ .datetime d = w := by
  cases v <;> simp [markedDate?]

theorem canonicalElements?_cons_eq_some_iff {v : Value} {vs ws : List Value} :
    canonicalElements? (v :: vs) = some ws ↔
      ∃ w us, canonical? v = some w ∧ canonicalElements? vs = some us ∧ w :: us = ws := by
  simp [canonicalElements?, Option.bind_eq_some_iff]

theorem canonicalEntries?_cons_eq_some_iff {key : String} {v : Value}
    {es fs : List (String × Value)} :
    canonicalEntries? ((key, v) :: es) = some fs ↔
      ∃ w gs, canonical? v = some w ∧ canonicalEntries? es = some gs ∧
        Entries.insert key w gs = fs := by
  simp [canonicalEntries?, Option.bind_eq_some_iff]

/-- Canonical entries stand in the order of their names. -/
theorem sorted_of_canonicalEntries? {es fs : List (String × Value)}
    (h : canonicalEntries? es = some fs) : Entries.Sorted fs := by
  induction es generalizing fs with
  | nil =>
      simp only [canonicalEntries?, Option.some.injEq] at h
      subst h
      exact .nil
  | cons e es ih =>
      obtain ⟨key, v⟩ := e
      obtain ⟨w, gs, -, hgs, rfl⟩ := canonicalEntries?_cons_eq_some_iff.mp h
      exact (ih hgs).insert key w

example : Datetime.ofText? "1979-05-27 23:59:60.5-23:59" =
    some ⟨some ⟨1979, 5, 27⟩, some ⟨23, 59, 60, 500000000⟩, some (.minutes (-1439))⟩ := by
  decide +kernel

example : ["07:32:00Z", "1979-02-29", "1979-05-27T", "1979-05-27 ", "1979-05-27 07:32",
    "07:32:00.", "24:00:00", "1979-05-27T07:32:00+24:00", "1979-05-27T07:32:00+00:60", ""].map
      Datetime.ofText? = List.replicate 10 none := by
  decide +kernel

end Abacus.Toml
