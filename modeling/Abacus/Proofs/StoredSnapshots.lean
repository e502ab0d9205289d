import Abacus.Proofs.FileLaws

/-!
# What storing a snapshot does to a file

Storing a snapshot reads a settings file as a table, changes one entry and writes the table
back.  Whether the next reader finds what was meant to be there depends on the printer and the
reader of tables undoing each other.  They do not always, since the reader gives one name a
meaning of its own (`dateMark`), and only if it is the first of its table; a table in which it
comes later is printed with it in another place.  So what is proved here about a file is
subject to the table being read back, `Toml.ReadsBack`, and this is asked of the very tables
that are written.  Of which tables it holds is a matter of its own, which this module leaves to
a later one.

## Faults

Reading comes first, and a fault in it ends the matter: nothing has been changed yet.  A fault
in writing is of another kind, so the kinds tell what may have been touched.
-/

namespace Abacus

theorem Entries.insert_insert {α : Type} (key : String) (a b : α) (es : List (String × α)) :
    insert key a (insert key b es) = insert key a es := by
  induction es with
  | nil => simp [insert]
  | cons e es ih =>
    obtain ⟨k, v⟩ := e
    rw [insert]
    split
    next hlt => simp [insert, hlt]
    next hlt =>
      split
      next heq => simp [insert, heq]
      next hne => rw [insert, if_neg hlt, if_neg hne, ih, insert, if_neg hlt, if_neg hne]

namespace Toml

/-- The table that a text holds, in canonical form. -/
def tableOf? (text : String) : Option Table := (Parser.parse? text).bind Table.canonical?

/-- What is printed of the table is read as the table again. -/
def ReadsBack (table : Table) : Prop := tableOf? (print table) = some table

instance (table : Table) : Decidable (ReadsBack table) := inferInstanceAs (Decidable (_ = _))

end Toml

namespace Settings

open Toml (Table Value)

/-- The snapshot in a table. -/
def snapshot? (table : Table) : Option String :=
  (Entries.get? "last_state" (stateFields table)).bind text?

theorem stateFields_withSnapshot (table : Table) (snapshot : String) :
    stateFields (withSnapshot table snapshot) =
      Entries.insert "last_state" (.string snapshot) (stateFields table) := by
  rw [stateFields, withSnapshot, Entries.get?_insert, if_pos rfl]

@[simp] theorem snapshot?_withSnapshot (table : Table) (snapshot : String) :
    snapshot? (withSnapshot table snapshot) = some snapshot := by
  rw [snapshot?, stateFields_withSnapshot, Entries.get?_insert, if_pos rfl]
  rfl

/-- Only `state` is another. -/
theorem get?_withSnapshot_of_ne (table : Table) (snapshot : String) {key : String}
    (h : key ≠ "state") :
    Entries.get? key (withSnapshot table snapshot) = Entries.get? key table := by
  rw [withSnapshot, Entries.get?_insert, if_neg h.symm]

/-- Only `last_state` is another in the section. -/
theorem get?_stateFields_of_ne (table : Table) (snapshot : String) {key : String}
    (h : key ≠ "last_state") :
    Entries.get? key (stateFields (withSnapshot table snapshot)) =
      Entries.get? key (stateFields table) := by
  rw [stateFields_withSnapshot, Entries.get?_insert, if_neg h.symm]

/-- Of two snapshots the later one stays, and nothing of the first. -/
@[simp] theorem withSnapshot_withSnapshot (table : Table) (first second : String) :
    withSnapshot (withSnapshot table first) second = withSnapshot table second := by
  rw [withSnapshot, stateFields_withSnapshot, Entries.insert_insert, withSnapshot,
    Entries.insert_insert, withSnapshot]

/-- The operations on files went well: a fault, if there is one, lies in the text. -/
def FilesSucceeded : Except Fault Unit → Prop
  | .error (.read _ _) => False
  | .error (.write _ _) => False
  | .error (.parse _) => True
  | .ok () => True

instance (result : Except Fault Unit) : Decidable (FilesSucceeded result) :=
  match result with
  | .error (.read _ _) => .isFalse id
  | .error (.write _ _) => .isFalse id
  | .error (.parse _) => .isTrue trivial
  | .ok () => .isTrue trivial

variable {σ : Type} [Files (StateM σ)]

/-- There is a file at the path, and it holds the table. -/
def HoldsTable (path : String) (table : Table) (w : σ) : Prop :=
  ∃ k text, answer (Files.kind path) w = .ok k ∧ answer (Files.read path) w = .ok text ∧
    Toml.tableOf? text = some table

section Laws

variable {path : String} [LawfulFiles σ path]

variable (path) in
/-- A table is loaded by looking. -/
@[simp] theorem stateAfter_loadTable (w : σ) :
    stateAfter (loadTable path) w = w := by
  unfold loadTable
  rw [stateAfter_bind, LawfulFiles.stateAfter_isPresent]
  split
  · rw [stateAfter_bind, LawfulFiles.stateAfter_read]
    split
    · rfl
    · split <;> rfl
  · rfl

/-- The table in a file is the one that is loaded. -/
theorem HoldsTable.loadTable {table : Table} {w : σ}
    (h : HoldsTable path table w) : answer (Settings.loadTable path) w = .ok table := by
  obtain ⟨k, text, hkind, hread, htable⟩ := h
  unfold Settings.loadTable
  rw [answer_bind, LawfulFiles.answer_isPresent, LawfulFiles.stateAfter_isPresent, hkind]
  simp only [Except.isOk, Except.toBool, if_true]
  rw [answer_bind, hread]
  unfold Toml.tableOf? at htable
  simp only [htable, answer_pure]

/-- The table that is loaded is in the file, or empty where there is nothing at the path. -/
theorem loadTable_eq_ok {table : Table} {w : σ}
    (h : answer (Settings.loadTable path) w = .ok table) :
    (∃ text, answer (Files.read path) w = .ok text ∧ Toml.tableOf? text = some table) ∨
      ((∃ e, answer (Files.kind path) w = .error e) ∧ table = []) := by
  unfold Settings.loadTable at h
  rw [answer_bind, LawfulFiles.answer_isPresent, LawfulFiles.stateAfter_isPresent] at h
  cases hkind : answer (Files.kind path) w with
  | error e =>
    rw [hkind] at h
    exact .inr ⟨⟨e, rfl⟩, (Except.ok.inj h).symm⟩
  | ok k =>
    rw [hkind] at h
    simp only [Except.isOk, Except.toBool, if_true] at h
    rw [answer_bind] at h
    cases hread : answer (Files.read path) w with
    | error e =>
      rw [hread] at h
      cases h
    | ok text =>
      rw [hread] at h
      unfold Toml.tableOf?
      cases htable : (Toml.Parser.parse? text).bind Table.canonical? with
      | none => simp [htable] at h
      | some t =>
        simp only [htable, answer_pure, Except.ok.injEq] at h
        exact .inl ⟨text, rfl, by rw [htable, h]⟩

/-- Storing goes as far as reading goes. -/
theorem store_of_loadTable_error (snapshot : String) {fault : Fault} {w : σ}
    (h : answer (loadTable path) w = .error fault) :
    answer (store path snapshot) w = .error fault ∧ stateAfter (store path snapshot) w = w := by
  unfold store
  rw [answer_bind, stateAfter_bind, stateAfter_loadTable, h]
  exact ⟨rfl, rfl⟩

/-- With a table to start from, storing is writing. -/
theorem store_of_loadTable (snapshot : String) {table : Table} {w : σ}
    (h : answer (loadTable path) w = .ok table) :
    answer (store path snapshot) w =
        answer (writeFile path (Toml.print (withSnapshot table snapshot))) w ∧
      stateAfter (store path snapshot) w =
        stateAfter (writeFile path (Toml.print (withSnapshot table snapshot))) w := by
  unfold store
  rw [answer_bind, stateAfter_bind, stateAfter_loadTable, h]
  exact ⟨rfl, rfl⟩

end Laws

/-! ## Writing -/

/-- The path of the directory in which a file is written. -/
def directoryOf (path : String) : String := (Path.parent? path).getD ""

/-- Makes the directory in which a file is written, unless that is the one that relative paths
start in. -/
def makeDirectoryOf (path : String) : StateM σ (Except FileError Unit) :=
  if (directoryOf path).isEmpty then return .ok ()
  else Files.makeDirectories (directoryOf path)

/-- First the directory is made, then the file is written. -/
theorem writeFile_eq (path contents : String) :
    (writeFile path contents : StateM σ _) = (do
      match ← makeDirectoryOf path with
      | .error e => return .error (.write (directoryOf path) e)
      | .ok () =>
          match ← Files.write path contents with
          | .error e => return .error (.write path e)
          | .ok () => return .ok ()) := by
  unfold writeFile makeDirectoryOf directoryOf
  dsimp only
  cases ((Path.parent? path).getD "").isEmpty <;> rfl

/-- What writing a file comes to. -/
theorem writeFile_cases (path contents : String) (w : σ) :
    let made := stateAfter (makeDirectoryOf path) w
    (∃ e, answer (makeDirectoryOf path) w = .error e ∧
      answer (writeFile path contents) w = .error (.write (directoryOf path) e) ∧
      stateAfter (writeFile path contents) w = made) ∨
    (answer (makeDirectoryOf path) w = .ok () ∧
      answer (writeFile path contents) w =
        (answer (Files.write path contents) made).mapError (.write path) ∧
      stateAfter (writeFile path contents) w = stateAfter (Files.write path contents) made) := by
  intro made
  rw [writeFile_eq, answer_bind, stateAfter_bind]
  cases hmade : answer (makeDirectoryOf path) w with
  | error e => exact .inl ⟨e, rfl, rfl, rfl⟩
  | ok u =>
    refine .inr ⟨rfl, ?_⟩
    rw [answer_bind, stateAfter_bind]
    cases answer (Files.write path contents) made <;> exact ⟨rfl, rfl⟩

/-- A file that could be written has been written in a directory that could be made. -/
theorem writeFile_eq_ok {path contents : String} {w : σ}
    (h : answer (writeFile path contents) w = .ok ()) :
    answer (makeDirectoryOf path) w = .ok () ∧
      answer (Files.write path contents) (stateAfter (makeDirectoryOf path) w) = .ok () ∧
      stateAfter (writeFile path contents) w =
        stateAfter (Files.write path contents) (stateAfter (makeDirectoryOf path) w) := by
  rcases writeFile_cases path contents w with ⟨e, -, herror, -⟩ | ⟨hmade, hanswer, hstate⟩
  · rw [herror] at h
    cases h
  · refine ⟨hmade, ?_, hstate⟩
    rw [hanswer] at h
    cases hwrite : answer (Files.write path contents) (stateAfter (makeDirectoryOf path) w) with
    | error e => simp [hwrite, Except.mapError] at h
    | ok u => rfl

/-- A fault in writing is reported as one. -/
theorem exists_of_writeFile_error {path contents : String} {w : σ} {fault : Fault}
    (h : answer (writeFile path contents) w = .error fault) : ∃ p e, fault = .write p e := by
  rcases writeFile_cases path contents w with ⟨e, -, herror, -⟩ | ⟨-, hanswer, -⟩
  · exact ⟨_, e, Except.error.inj (h.symm.trans herror)⟩
  · rw [hanswer] at h
    cases hwrite : answer (Files.write path contents) (stateAfter (makeDirectoryOf path) w) with
    | error e =>
      rw [hwrite] at h
      exact ⟨path, e, (Except.error.inj h).symm⟩
    | ok u => simp [hwrite, Except.mapError] at h

/-! ## Storing -/

section Laws

variable {path : String} [LawfulFiles σ path]

/-- After storing there is a file, and it holds the table with the snapshot in print. -/
theorem read_store {snapshot : String} {table : Table} {w : σ}
    (hload : answer (loadTable path) w = .ok table)
    (h : answer (store path snapshot) w = .ok ()) :
    (∃ k, answer (Files.kind path) (stateAfter (store path snapshot) w) = .ok k) ∧
      answer (Files.read path) (stateAfter (store path snapshot) w) =
        .ok (Toml.print (withSnapshot table snapshot)) := by
  obtain ⟨hanswer, hstate⟩ := store_of_loadTable snapshot hload
  obtain ⟨-, hwrite, hafter⟩ := writeFile_eq_ok (hanswer ▸ h)
  rw [hstate, hafter]
  exact ⟨LawfulFiles.kind_write _ _ hwrite, LawfulFiles.read_write _ _ hwrite⟩

/-- What has been stored is in the file, if it is read back. -/
theorem holdsTable_of_store {snapshot : String} {table : Table} {w : σ}
    (hload : answer (loadTable path) w = .ok table)
    (hback : Toml.ReadsBack (withSnapshot table snapshot))
    (h : answer (store path snapshot) w = .ok ()) :
    HoldsTable path (withSnapshot table snapshot) (stateAfter (store path snapshot) w) := by
  obtain ⟨⟨k, hkind⟩, hread⟩ := read_store hload h
  exact ⟨k, _, hkind, hread, hback⟩

/-- With a table to start from only writing can fail. -/
theorem store_eq_ok_of_filesSucceeded {snapshot : String} {table : Table} {w : σ}
    (hload : answer (loadTable path) w = .ok table)
    (h : FilesSucceeded (answer (store path snapshot) w)) :
    answer (store path snapshot) w = .ok () := by
  rw [(store_of_loadTable snapshot hload).1] at h ⊢
  cases hwrite : answer (writeFile path (Toml.print (withSnapshot table snapshot))) w with
  | error fault =>
    obtain ⟨p, e, rfl⟩ := exists_of_writeFile_error hwrite
    rw [hwrite] at h
    exact h.elim
  | ok u => rfl

/-- Where the fault lies in reading, nothing has been changed. -/
theorem stateAfter_store_of_fault {snapshot : String} {w : σ} {fault : Fault}
    (h : answer (store path snapshot) w = .error fault) (hfault : ∀ p e, fault ≠ .write p e) :
    stateAfter (store path snapshot) w = w := by
  cases hload : answer (loadTable path) w with
  | error fault => exact (store_of_loadTable_error snapshot hload).2
  | ok table =>
    rw [(store_of_loadTable snapshot hload).1] at h
    obtain ⟨p, e, heq⟩ := exists_of_writeFile_error h
    exact absurd heq (hfault p e)

end Laws

end Settings

end Abacus
