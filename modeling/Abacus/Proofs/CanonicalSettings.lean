import Abacus.Proofs.StoredSnapshots

/-!
# Settings of a table in canonical form

Settings are read from the table of a file as it stands, with its entries in the order of the
file, while a table that is to be written again is first brought into canonical form.  Both
readings give the same settings, with one exception: a section that is spelled like a date is
a date in canonical form, and a date has no fields.

A section looks at some of its entries by name and ignores the others, and of an entry it looks
at the kind and, for texts and flags, at the value.  All this is kept by the canonical form.
-/

namespace Abacus

theorem Entries.lookup_eq_get? {α : Type} (key : String) (es : List (String × α)) :
    es.lookup key = get? key es := by
  induction es with
  | nil => rfl
  | cons e es ih =>
    obtain ⟨k, v⟩ := e
    rw [List.lookup_cons, get?]
    by_cases h : k = key
    · simp [h]
    · rw [beq_false_of_ne (Ne.symm h), if_neg h, ih]

namespace Toml

/-- The two lists of entries have the same names, and under each name a value and its canonical
form. -/
def SameEntries (es fs : List (String × Value)) : Prop :=
  ∀ name, Option.Rel (fun v w => canonical? v = some w) (es.lookup name) (fs.lookup name)

theorem SameEntries.nil : SameEntries [] [] := fun _ => .none

theorem SameEntries.lookup {es fs : List (String × Value)} (h : SameEntries es fs)
    (name : String) :
    (es.lookup name = none ∧ fs.lookup name = none) ∨
      ∃ v w, es.lookup name = some v ∧ fs.lookup name = some w ∧ canonical? v = some w := by
  have hrel := h name
  generalize es.lookup name = v at hrel ⊢
  generalize fs.lookup name = w at hrel ⊢
  cases hrel with
  | none => exact .inl ⟨rfl, rfl⟩
  | some hvalue => exact .inr ⟨_, _, rfl, rfl, hvalue⟩

/-- Of entries with the same name the first counts in both forms. -/
theorem sameEntries_canonicalEntries? {es fs : List (String × Value)}
    (h : canonicalEntries? es = some fs) : SameEntries es fs := by
  induction es generalizing fs with
  | nil =>
    obtain rfl := Option.some.inj h
    exact .nil
  | cons e es ih =>
    obtain ⟨key, v⟩ := e
    obtain ⟨w, gs, hw, hgs, rfl⟩ := canonicalEntries?_cons_eq_some_iff.mp h
    intro name
    rw [Entries.lookup_eq_get?, Entries.lookup_eq_get?, Entries.get?, Entries.get?_insert,
      ← Entries.lookup_eq_get?, ← Entries.lookup_eq_get?]
    split
    next => exact .some hw
    next => exact ih hgs name

/-- The fields that an array gives in their order. -/
theorem sameEntries_zip {vs ws : List Value} (h : canonicalElements? vs = some ws)
    (names : List String) : SameEntries (names.zip vs) (names.zip ws) := by
  induction vs generalizing ws names with
  | nil =>
    obtain rfl := Option.some.inj h
    simpa using SameEntries.nil
  | cons v vs ih =>
    obtain ⟨w, ws, hw, hws, rfl⟩ := canonicalElements?_cons_eq_some_iff.mp h
    cases names with
    | nil => exact .nil
    | cons key names =>
      intro name
      rw [List.zip_cons_cons, List.zip_cons_cons, List.lookup_cons, List.lookup_cons]
      split
      next => exact .some hw
      next => exact ih hws names name

/-- The canonical form of a value is the value itself, a table or array of the canonical forms
inside it, or a date for a table that spells one. -/
theorem canonical?_cases {v w : Value} (h : canonical? v = some w) :
    (w = v ∧ (∀ vs, v ≠ .array vs) ∧ ∀ es, v ≠ .table es) ∨
      (∃ vs ws, v = .array vs ∧ w = .array ws ∧ canonicalElements? vs = some ws) ∨
      (∃ es fs, v = .table es ∧ w = .table fs ∧ canonicalEntries? es = some fs) ∨
      ∃ es d, v = .table es ∧ w = .datetime d := by
  cases v with
  | array vs =>
    rw [canonical?] at h
    obtain ⟨ws, hws, rfl⟩ := Option.map_eq_some_iff.mp h
    exact .inr (.inl ⟨vs, ws, rfl, rfl, hws⟩)
  | table es =>
    rw [canonical?] at h
    split at h
    next =>
      obtain ⟨text, d, -, -, rfl⟩ := markedDate?_eq_some_iff.mp h
      exact .inr (.inr (.inr ⟨es, d, rfl, rfl⟩))
    next =>
      obtain ⟨fs, hfs, rfl⟩ := Option.map_eq_some_iff.mp h
      exact .inr (.inr (.inl ⟨es, fs, rfl, rfl, hfs⟩))
  | string | integer | float | boolean | datetime =>
    obtain rfl := Option.some.inj h
    exact .inl ⟨rfl, nofun, nofun⟩

end Toml

namespace Settings

open Toml (Value Table canonical? SameEntries)

theorem text?_canonical {v w : Value} (h : canonical? v = some w) : text? w = text? v := by
  rcases Toml.canonical?_cases h with ⟨rfl, -⟩ | ⟨vs, ws, rfl, rfl, -⟩ | ⟨es, fs, rfl, rfl, -⟩ |
    ⟨es, d, rfl, rfl⟩ <;> rfl

theorem flag?_canonical {v w : Value} (h : canonical? v = some w) : flag? w = flag? v := by
  rcases Toml.canonical?_cases h with ⟨rfl, -⟩ | ⟨vs, ws, rfl, rfl, -⟩ | ⟨es, fs, rfl, rfl, -⟩ |
    ⟨es, d, rfl, rfl⟩ <;> rfl

/-- A field is read alike from both lists of entries if its value is. -/
theorem field?_eq {α : Type} {read : Value → Option α} {default : α} {name : String}
    {es fs : List (String × Value)} (h : SameEntries es fs)
    (hread : ∀ v w, fs.lookup name = some w → canonical? v = some w → read w = read v) :
    field? read default name fs = field? read default name es := by
  unfold field?
  rcases h.lookup name with ⟨hes, hfs⟩ | ⟨v, w, hes, hfs, hvalue⟩
  · rw [hes, hfs]
  · rw [hes, hfs]
    exact hread v w hfs hvalue

/-- A section and its canonical form have the same fields, unless the latter is a date. -/
theorem exists_fields? {v w : Value} (h : canonical? v = some w) (hdate : ∀ d, w ≠ .datetime d)
    (names : List String) :
    (fields? names v = none ∧ fields? names w = none) ∨
      ∃ es fs, fields? names v = some es ∧ fields? names w = some fs ∧ SameEntries es fs := by
  rcases Toml.canonical?_cases h with ⟨rfl, harray, htable⟩ | ⟨vs, ws, rfl, rfl, hws⟩ |
    ⟨es, fs, rfl, rfl, hfs⟩ | ⟨es, d, rfl, rfl⟩
  · have hnone : fields? names w = none := by
      unfold fields?
      split
      next es => exact absurd rfl (htable es)
      next vs => exact absurd rfl (harray vs)
      next d => exact absurd rfl (hdate d)
      next => rfl
    exact .inl ⟨hnone, hnone⟩
  · exact .inr ⟨_, _, rfl, rfl, Toml.sameEntries_zip hws names⟩
  · exact .inr ⟨es, fs, rfl, rfl, Toml.sameEntries_canonicalEntries? hfs⟩
  · exact absurd rfl (hdate d)

theorem repl?_canonical {v w : Value} (h : canonical? v = some w)
    (hdate : ∀ d, w ≠ .datetime d) : repl? w = repl? v := by
  unfold repl?
  rcases exists_fields? h hdate replFields with ⟨hv, hw⟩ | ⟨es, fs, hv, hw, hsame⟩
  · rw [hv, hw]
  · have htext : ∀ default name, field? text? default name fs = field? text? default name es :=
      fun _ _ => field?_eq hsame fun _ _ _ => text?_canonical
    have hflag : ∀ default name, field? flag? default name fs = field? flag? default name es :=
      fun _ _ => field?_eq hsame fun _ _ _ => flag?_canonical
    have hpath : ∀ default name, field? (fun v => (text? v).map some) default name fs =
        field? (fun v => (text? v).map some) default name es :=
      fun _ _ => field?_eq hsame fun v w _ h => congrArg _ (text?_canonical h)
    simp only [hv, hw, Option.bind_eq_bind, Option.bind_some, htext, hflag, hpath]

theorem state?_canonical {v w : Value} (h : canonical? v = some w)
    (hdate : ∀ d, w ≠ .datetime d) : state? w = state? v := by
  unfold state?
  rcases exists_fields? h hdate ["last_state"] with ⟨hv, hw⟩ | ⟨es, fs, hv, hw, hsame⟩
  · rw [hv, hw]
  · rw [hv, hw]
    exact field?_eq hsame fun _ _ _ => text?_canonical

/-- The section `repl` of a table is that of its canonical form. -/
theorem replField_canonical {raw table : Table} (h : Table.canonical? raw = some table)
    (hdate : ∀ d, Entries.get? "repl" table ≠ some (.datetime d)) :
    field? repl? {} "repl" table = field? repl? {} "repl" raw := by
  rw [← Entries.lookup_eq_get?] at hdate
  exact field?_eq (Toml.sameEntries_canonicalEntries? h) fun v w hw hv =>
    repl?_canonical hv fun d heq => hdate d (heq ▸ hw)

/-- The snapshot of a table is that of its canonical form. -/
theorem stateField_withSnapshot {raw table : Table} {snapshot : String}
    (h : Table.canonical? raw = some (withSnapshot table snapshot)) :
    field? state? "" "state" raw = some snapshot := by
  have hlookup : (withSnapshot table snapshot).lookup "state" =
      some (.table (Entries.insert "last_state" (.string snapshot) (stateFields table))) := by
    rw [Entries.lookup_eq_get?, withSnapshot, Entries.get?_insert, if_pos rfl]
  have hfield : field? state? "" "state" (withSnapshot table snapshot) =
      field? state? "" "state" raw :=
    field?_eq (Toml.sameEntries_canonicalEntries? h) fun v w hw hv => by
      obtain rfl := Option.some.inj (hlookup.symm.trans hw)
      exact state?_canonical hv fun _ h => by cases h
  rw [← hfield, field?, hlookup]
  simp only [state?, fields?, Option.bind_eq_bind, Option.bind_some, field?,
    Entries.lookup_eq_get?, Entries.get?_insert, if_true]
  rfl

/-- A stored snapshot does not change the section `repl`, for those who read the file as it stands,
provided that the section is no date in canonical form. -/
theorem replField_withSnapshot {raw raw' table : Table} {snapshot : String}
    (h : Table.canonical? raw = some table)
    (h' : Table.canonical? raw' = some (withSnapshot table snapshot))
    (hdate : ∀ d, Entries.get? "repl" table ≠ some (.datetime d)) :
    field? repl? {} "repl" raw' = field? repl? {} "repl" raw := by
  have hsame : Entries.get? "repl" (withSnapshot table snapshot) = Entries.get? "repl" table :=
    get?_withSnapshot_of_ne table snapshot (by decide)
  rw [← replField_canonical h hdate, ← replField_canonical h' (by rwa [hsame]), field?, field?,
    Entries.lookup_eq_get?, Entries.lookup_eq_get?, hsame]

/-- **A stored snapshot changes the snapshot and no other setting**, under the same condition. -/
theorem ofTable?_withSnapshot {raw raw' table : Table} {snapshot : String} {settings : Settings}
    (h : Table.canonical? raw = some table)
    (h' : Table.canonical? raw' = some (withSnapshot table snapshot))
    (hdate : ∀ d, Entries.get? "repl" table ≠ some (.datetime d))
    (hsettings : ofTable? raw = some settings) :
    ofTable? raw' = some { settings with lastState := snapshot } := by
  unfold ofTable? at hsettings ⊢
  rw [replField_withSnapshot h h' hdate, stateField_withSnapshot h']
  simp only [Option.bind_eq_bind, Option.bind_eq_some_iff, Option.pure_def,
    Option.some.injEq] at hsettings
  obtain ⟨repl, hr, lastState, -, rfl⟩ := hsettings
  rw [hr]
  rfl

end Settings

end Abacus
