import Abacus.Proofs.ReadBack

/-!
# Storing a snapshot edits one key

Storing a snapshot goes through the whole of a settings file: the text is read as a table, one field
of one section is set, and the table is printed again.  What else the user has written there, nested
to whatever depth, must not get lost on the way.  `Edited` says so without the functions that do it.

That the printed table is read as the same table is assumed here of the one table that is written.
Then loading the file gives the snapshot, and the section `repl` that was in the file before.  There
is one exception.  A section that begins with the name that marks a date is loaded as a section, but
in the table it is a date; it is printed as a date, and from a date nothing but defaults are loaded.

Storing two snapshots leaves the same text as storing the second one alone, since the text depends
on the table alone and the second snapshot takes the place of the first.
-/

namespace Abacus.Settings

open Toml (Table Value tableOf? ReadsBack)

/-- One table comes from another by setting the field of the snapshot. -/
structure Edited (table : Table) (snapshot : String) (edited : Table) : Prop where
  /-- No key comes twice, and the keys are in order. -/
  sorted : Entries.Sorted edited
  /-- What stands under any other key, at whatever depth, is the same. -/
  others : ∀ key, key ≠ "state" → Entries.get? key edited = Entries.get? key table
  /-- A section `state` that is a table keeps its other fields. -/
  fields : ∀ fields, Entries.get? "state" table = some (.table fields) →
    ∃ fields', Entries.get? "state" edited = some (.table fields') ∧ Entries.Sorted fields' ∧
      Entries.get? "last_state" fields' = some (.string snapshot) ∧
      ∀ key, key ≠ "last_state" → Entries.get? key fields' = Entries.get? key fields
  /-- Anything else in its place, or nothing, makes way for a table with this field only. -/
  replaced : (∀ fields, Entries.get? "state" table ≠ some (.table fields)) →
    Entries.get? "state" edited = some (.table [("last_state", .string snapshot)])

/-- The section `repl` of a text, whatever else is in it. -/
def replOf? (text : String) : Option ReplSettings :=
  (Toml.Parser.parse? text).bind (field? repl? {} "repl")

theorem edited_withSnapshot {table : Table} (h : table.Settled) (snapshot : String) :
    Edited table snapshot (withSnapshot table snapshot) where
  sorted := (settled_withSnapshot h snapshot).sorted
  others _ hkey := get?_withSnapshot_of_ne table snapshot hkey
  fields fields hfields := by
    have hsection : stateFields table = fields := by rw [stateFields, hfields]
    have hsorted := (settled_stateFields h).sorted
    rw [hsection] at hsorted
    refine ⟨Entries.insert "last_state" (.string snapshot) fields, ?_, hsorted.insert _ _, ?_,
      fun key hkey => ?_⟩
    · rw [withSnapshot, Entries.get?_insert, if_pos rfl, hsection]
    · rw [Entries.get?_insert, if_pos rfl]
    · rw [Entries.get?_insert, if_neg hkey.symm]
  replaced hnone := by
    have hsection : stateFields table = [] := by
      unfold stateFields
      split
      next fields hfields => exact absurd hfields (hnone fields)
      next => rfl
    rw [withSnapshot, Entries.get?_insert, if_pos rfl, hsection]
    rfl

/-! ## What is loaded afterwards -/

/-- A table with a snapshot is loaded as the snapshot and whatever its section `repl` is. -/
theorem ofTable?_eq {raw table : Table} {snapshot : String} {repl : ReplSettings}
    (h : Table.canonical? raw = some (withSnapshot table snapshot))
    (hrepl : field? repl? {} "repl" raw = some repl) :
    ofTable? raw = some { repl, lastState := snapshot } := by
  rw [ofTable?, hrepl, stateField_withSnapshot h]
  rfl

/-- What stands on a line of its own comes first in print, and keeps its name. -/
theorem get?_plainEntries {table : Table} {key : String} {v : Value}
    (hv : Toml.hasHeader v = false) (h : Entries.get? key table = some v) :
    Entries.get? key (Toml.plainEntries table) = some v := by
  induction table with
  | nil => exact h
  | cons e es ih =>
    rw [Entries.get?] at h
    split at h
    next heq =>
      obtain rfl := Option.some.inj h
      rw [Toml.plainEntries, List.filter_cons_of_pos (by simp [hv]), Entries.get?, if_pos heq]
    next hne =>
      by_cases hheader : Toml.hasHeader e.2 = true
      · rw [Toml.plainEntries, List.filter_cons_of_neg (by simp [hheader])]
        exact ih h
      · rw [Toml.plainEntries, List.filter_cons_of_pos (by simp [hheader]), Entries.get?,
          if_neg hne]
        exact ih h

/-- A date is printed as one, and is read as a section of defaults. -/
theorem replField_of_date {table : Table} {d : Toml.Datetime}
    (hdate : Entries.get? "repl" table = some (.datetime d)) :
    field? repl? {} "repl" (Toml.plainEntries table ++ Toml.orderedEntries table) = some {} := by
  rw [field?, Entries.lookup_eq_get?, Entries.get?_append, get?_plainEntries rfl hdate]
  rfl

variable {σ : Type} [Files (StateM σ)]

/-- The text that storing starts from is that of the file, or none if there is nothing at the
path. -/
def StartsFrom (path text : String) (w : σ) : Prop :=
  ((∃ k, answer (Files.kind path) w = .ok k) ∧ answer (Files.read path) w = .ok text) ∨
    (∃ e, answer (Files.kind path) w = .error e) ∧ text = ""

theorem load_of_read {path text : String} {settings : Settings} {w : σ}
    (hread : answer (Files.read path) w = .ok text) (hparse : parse? text = some settings) :
    answer (load path) w = .ok settings := by
  unfold load
  rw [answer_bind, hread]
  simp only [hparse, answer_pure]

variable {path : String} [LawfulFiles σ path]

theorem loadTable_of_startsFrom {text : String} {table : Table} {w : σ}
    (hstart : StartsFrom path text w) (htable : tableOf? text = some table) :
    answer (loadTable path) w = .ok table := by
  rcases hstart with ⟨⟨k, hkind⟩, hread⟩ | ⟨⟨e, hkind⟩, rfl⟩
  · exact HoldsTable.loadTable ⟨k, text, hkind, hread, htable⟩
  · have hempty : tableOf? "" = some [] := by decide +kernel
    obtain rfl : [] = table := Option.some.inj (hempty.symm.trans htable)
    unfold loadTable
    rw [answer_bind, LawfulFiles.answer_isPresent, hkind]
    rfl

/-- The table is the same after one snapshot as before, for anyone who stores another. -/
theorem read_second_store {table : Table} {first second : String} {w : σ}
    (hload : answer (loadTable path) w = .ok table)
    (hback : ReadsBack (withSnapshot table first))
    (hfirst : answer (store path first) w = .ok ())
    (hsecond : FilesSucceeded (answer (store path second) (stateAfter (store path first) w))) :
    answer (Files.read path) (stateAfter (store path second) (stateAfter (store path first) w)) =
      .ok (Toml.print (withSnapshot table second)) := by
  have hafter := (holdsTable_of_store hload hback hfirst).loadTable
  have hread := (read_store hafter (store_eq_ok_of_filesSucceeded hafter hsecond)).2
  rwa [withSnapshot_withSnapshot] at hread

/-- **Storing a snapshot edits one key.**  From a text that holds a table, if what is written is
read back and no operation on files fails:

* storing succeeds, and the file holds the table with the snapshot set and every other key as it
  was;
* what is loaded then has the snapshot, and the section `repl` that was in the text, unless the
  table has a date there;
* with a date there, what is loaded has the snapshot and defaults;
* a second snapshot leaves the text that it would have left without the first. -/
theorem one_key_edited {text first : String} {table : Table} {w : σ}
    (hstart : StartsFrom path text w) (htable : tableOf? text = some table)
    (hback : ReadsBack (withSnapshot table first))
    (hfiles : FilesSucceeded (answer (store path first) w)) :
    answer (store path first) w = .ok () ∧
      (∃ text' edited,
        answer (Files.read path) (stateAfter (store path first) w) = .ok text' ∧
        tableOf? text' = some edited ∧ Edited table first edited) ∧
      (∀ repl, replOf? text = some repl →
        (∀ d, Entries.get? "repl" table ≠ some (.datetime d)) →
        answer (load path) (stateAfter (store path first) w) =
          .ok { repl, lastState := first }) ∧
      (∀ d, Entries.get? "repl" table = some (.datetime d) → table.Writable →
        answer (load path) (stateAfter (store path first) w) = .ok { lastState := first }) ∧
      ∀ second, FilesSucceeded (answer (store path second) w) →
        FilesSucceeded (answer (store path second) (stateAfter (store path first) w)) →
        ∃ text',
          answer (Files.read path) (stateAfter (store path second) w) = .ok text' ∧
          answer (Files.read path)
            (stateAfter (store path second) (stateAfter (store path first) w)) = .ok text' := by
  have hload := loadTable_of_startsFrom hstart htable
  have hsettled := Toml.settled_of_tableOf? htable
  have hstored := store_eq_ok_of_filesSucceeded hload hfiles
  have hread := (read_store hload hstored).2
  obtain ⟨raw, hraw, hcanonical⟩ := Option.bind_eq_some_iff.mp htable
  obtain ⟨raw', hraw', hcanonical'⟩ := Option.bind_eq_some_iff.mp hback
  -- What is loaded afterwards depends on the section of the printed text only.
  have hloaded : ∀ repl, field? repl? {} "repl" raw' = some repl →
      answer (load path) (stateAfter (store path first) w) = .ok { repl, lastState := first } :=
    fun repl hrepl => load_of_read hread <| by
      rw [parse?, hraw']
      exact ofTable?_eq hcanonical' hrepl
  refine ⟨hstored, ⟨_, _, hread, hback, edited_withSnapshot hsettled first⟩,
    fun repl hrepl hdate => hloaded repl ?_, fun d hdate hwritable => hloaded {} ?_,
    fun second hsecond hlater => ⟨_, (read_store hload (store_eq_ok_of_filesSucceeded hload
      hsecond)).2, read_second_store hload hback hstored hlater⟩⟩
  · rw [replField_withSnapshot hcanonical hcanonical' hdate]
    rwa [replOf?, hraw] at hrepl
  · have hedited := settled_withSnapshot hsettled first
    have hprint := Toml.parse?_print hedited.sorted hedited.settled
      (writable_withSnapshot hsettled hwritable first).shallow
    obtain rfl := Option.some.inj (hraw'.symm.trans hprint)
    refine replField_of_date (d := d) ?_
    rw [get?_withSnapshot_of_ne table first (by decide), hdate]

section Examples

/-- A directory with a settings file. -/
def treeWith (text : String) : FileTree :=
  { workingDirectory := ["work"]
    nodes := [(["work"], none), (["work", "zappac.toml"], some text)] }

/-- Settings without colours, a table inside another, and a `state` that is no table. -/
def nestedText : String := "state = 3\n[a.b]\nc = [1, 'x']\n[repl]\ncolor = false\n"

/-- The same as a table. -/
def nestedTable : Table :=
  [("a", .table [("b", .table [("c", .array [.integer 1, .string "x"])])]),
    ("repl", .table [("color", .boolean false)]), ("state", .integer 3)]

/-- Settings without colours, in a section that is spelled like a date. -/
def datedText : String :=
  "[repl]\n\"$__toml_private_datetime\" = \"1979-05-27\"\ncolor = false\n"

/-- The date that is meant. -/
def firstDate : Toml.Datetime := { date := some ⟨1979, 5, 27⟩ }

/-- The same as a table. -/
def datedTable : Table := [("repl", .datetime firstDate)]

/-- A snapshot with quotes of both kinds and a backslash. -/
def quotedSnapshot : String := "\x7b\"it's\":\"\\\\\"\x7d"

/-- From the first text the section `repl` comes back, and a table inside another is kept.  From the
second text defaults come back, although its section says the same. -/
theorem one_key_edited_colorless :
    (∃ text' edited,
      answer (Files.read "zappac.toml")
        (stateAfter (store "zappac.toml" quotedSnapshot) (treeWith nestedText)) = .ok text' ∧
      tableOf? text' = some edited ∧
      Entries.get? "a" edited = Entries.get? "a" nestedTable ∧
      Entries.get? "state" edited = some (.table [("last_state", .string quotedSnapshot)])) ∧
    answer (load "zappac.toml")
        (stateAfter (store "zappac.toml" quotedSnapshot) (treeWith nestedText)) =
      .ok { repl := { color := false }, lastState := quotedSnapshot } ∧
    (∃ text',
      answer (Files.read "zappac.toml")
        (stateAfter (store "zappac.toml" "'") (treeWith nestedText)) = .ok text' ∧
      answer (Files.read "zappac.toml") (stateAfter (store "zappac.toml" "'")
        (stateAfter (store "zappac.toml" quotedSnapshot) (treeWith nestedText))) = .ok text') ∧
    replOf? datedText = some { color := false } ∧
    answer (load "zappac.toml")
        (stateAfter (store "zappac.toml" quotedSnapshot) (treeWith datedText)) =
      .ok { lastState := quotedSnapshot } := by
  have hstarts : ∀ text ∈ [nestedText, datedText],
      StartsFrom "zappac.toml" text (treeWith text) := by
    have hlooks : ∀ text ∈ [nestedText, datedText],
        answer (Files.kind "zappac.toml") (treeWith text) = .ok .file ∧
          answer (Files.read "zappac.toml") (treeWith text) = .ok text := by decide +kernel
    exact fun text htext => .inl ⟨⟨_, (hlooks text htext).1⟩, (hlooks text htext).2⟩
  have hnested : tableOf? nestedText = some nestedTable := by decide +kernel
  have hdated : tableOf? datedText = some datedTable := by decide +kernel
  have hback : ∀ table ∈ [nestedTable, datedTable],
      ReadsBack (withSnapshot table quotedSnapshot) := by decide +kernel
  have hstate : Entries.get? "state" nestedTable = some (.integer 3) := by decide +kernel
  have hsection : Entries.get? "repl" nestedTable = some (.table [("color", .boolean false)]) := by
    decide +kernel
  obtain ⟨-, ⟨text', edited, hread, hedited, hsame⟩, hrepl, -, hsecond⟩ :=
    one_key_edited (hstarts nestedText (by simp)) hnested (hback nestedTable (by simp))
      (by decide +kernel)
  obtain ⟨-, -, -, hdate, -⟩ :=
    one_key_edited (hstarts datedText (by simp)) hdated (hback datedTable (by simp))
      (by decide +kernel)
  refine ⟨⟨text', edited, hread, hedited, hsame.others "a" (by decide),
      hsame.replaced fun fields h => ?_⟩,
    hrepl { color := false } (by decide +kernel) fun d h => ?_,
    hsecond "'" (by decide +kernel) (by decide +kernel),
    by decide +kernel, hdate firstDate (by decide +kernel) (by decide +kernel)⟩
  · rw [hstate] at h
    cases h
  · rw [hsection] at h
    cases h

end Examples

end Abacus.Settings
