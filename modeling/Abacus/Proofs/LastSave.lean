import Abacus.Proofs.ReadBack
import Abacus.Proofs.SavingLines

/-!
# The file holds the last save

A session that was opened with a settings file stores a snapshot in it whenever a line that
persists saves.  This module follows the file through any number of lines.

* Lines that do not save, and previews of any line, leave all files alone.
* After a line that saves, the file holds what it held at first, with the snapshot of the
  environment right after that line in place of any other.
* What the session does never depends on the file, or on there being one.

The files are those of any file system that is lawful at the path, and the first two statements
are about runs in which its operations succeed.  They also need that what is written is read back,
as it is for a table that can be written (`Toml.Table.Writable`); `lastSave_lost_behind_mark` shows
a file with one that cannot, and a snapshot that is lost for that reason.

## How the proof goes

`stateAfter_execLine` says what a line does to the files, and `holdsTable_of_store` what is in
the file after that.  A run is followed from its first line on: the table in the file changes,
but only in its snapshot, and the next snapshot covers the one before
(`withSnapshot_withSnapshot`).
-/

namespace Abacus.App

open Settings (Fault HoldsTable FilesSucceeded snapshot? stateFields withSnapshot)
open Toml (Table ReadsBack)
open Calculator (isSave)

section Runs

variable {m : Type → Type} [Monad m] [Host m]

/-- Runs lines one after the other, each to persist or not.  Answers with the session and
with whether each line succeeded. -/
def execAll (s : Calculator String) : List (String × Bool) → m (Calculator String × List Bool)
  | [] => return (s, [])
  | (line, persist) :: calls => do
      let (next, ok) ← execLine s line persist
      let (last, oks) ← execAll next calls
      return (last, ok :: oks)

end Runs

variable {σ : Type} [Host (StateM σ)]

/-- What became of a snapshot that was due. -/
structure Attempt where
  /-- The environment right after the line that saves. -/
  environment : Environment
  /-- What storing its snapshot led to. -/
  result : Except Fault Unit

/-- What becomes of the snapshots that are due in a run: one for each line that saves and
persists, to be stored at the path. -/
def attempts (path : String) (s : Calculator String) : List (String × Bool) → σ → List Attempt
  | [], _ => []
  | (line, persist) :: calls, w =>
      let next := (s.exec line persist).session
      let later := attempts path next calls (stateAfter (execLine s line persist) w)
      if persist && isSave line then
        ⟨next.environment,
          answer (Settings.store path (Snapshot.write next.environment)) w⟩ :: later
      else later

/-! ## One line -/

/-- What a line answers is decided before any file is touched. -/
theorem answer_execLine (s : Calculator String) (line : String) (persist : Bool) (w : σ) :
    answer (execLine s line persist) w =
      ((s.exec line persist).session, (s.exec line persist).ok) := rfl

/-- A line touches files only to store the snapshot that is due. -/
theorem stateAfter_execLine {s : Calculator String} {path : String} (hook : s.hook = some path)
    (line : String) (persist : Bool) (w : σ) :
    stateAfter (execLine s line persist) w =
      if persist && isSave line then
        stateAfter (Settings.store path
          (Snapshot.write (s.exec line persist).session.environment)) w
      else w := by
  unfold execLine
  simp only [stateAfter_bind, stateAfter_pure]
  unfold storeSaved
  rw [Calculator.saved_exec, hook]
  cases persist && isSave line <;> rfl

theorem stateAfter_execLine_of_save {s : Calculator String} {path : String}
    (hook : s.hook = some path) {line : String} {persist : Bool}
    (hsave : (persist && isSave line) = true) (w : σ) :
    stateAfter (execLine s line persist) w = stateAfter (Settings.store path
      (Snapshot.write (s.exec line persist).session.environment)) w := by
  rw [stateAfter_execLine hook, hsave]
  rfl

theorem stateAfter_execLine_of_not_save {s : Calculator String} {path : String}
    (hook : s.hook = some path) {line : String} {persist : Bool}
    (hsave : (persist && isSave line) = false) (w : σ) :
    stateAfter (execLine s line persist) w = w := by
  rw [stateAfter_execLine hook, hsave]
  rfl

theorem hook_exec (s : Calculator String) (line : String) (persist : Bool) :
    (s.exec line persist).session.hook = s.hook := by
  unfold Calculator.exec
  rw [Session.exec_eq_ofEvent]
  rfl

/-- The environment of a session does not depend on the hook. -/
theorem exec_withHook (s : Calculator String) (hook : Option String) (line : String)
    (persist : Bool) :
    (Calculator.exec { s with hook } line persist).session =
        { (s.exec line persist).session with hook } ∧
      (Calculator.exec { s with hook } line persist).ok = (s.exec line persist).ok := by
  unfold Calculator.exec
  rw [Session.exec_eq_ofEvent, Session.exec_eq_ofEvent]
  exact ⟨rfl, rfl⟩

/-! ## A whole run -/

/-- The lines of a run answer the same whatever happens to the files, also with another hook
or without one. -/
theorem answer_execAll_withHook (s : Calculator String) (hook : Option String)
    (calls : List (String × Bool)) (w w' : σ) :
    answer (execAll { s with hook } calls) w =
      ({ (answer (execAll s calls) w').1 with hook }, (answer (execAll s calls) w').2) := by
  induction calls generalizing s w w' with
  | nil => rfl
  | cons call calls ih =>
    obtain ⟨line, persist⟩ := call
    obtain ⟨hsession, hok⟩ := exec_withHook s hook line persist
    unfold execAll
    simp only [answer_bind, answer_pure, answer_execLine]
    rw [hsession, hok, ih _ _ (stateAfter (execLine s line persist) w')]

theorem attempts_cons (path : String) (s : Calculator String) (line : String) (persist : Bool)
    (calls : List (String × Bool)) (w : σ) :
    attempts path s ((line, persist) :: calls) w =
      if persist && isSave line then
        ⟨(s.exec line persist).session.environment,
          answer (Settings.store path
            (Snapshot.write (s.exec line persist).session.environment)) w⟩ ::
          attempts path (s.exec line persist).session calls
            (stateAfter (execLine s line persist) w)
      else attempts path (s.exec line persist).session calls
        (stateAfter (execLine s line persist) w) := rfl

theorem stateAfter_execAll_cons (s : Calculator String) (line : String) (persist : Bool)
    (calls : List (String × Bool)) (w : σ) :
    stateAfter (execAll s ((line, persist) :: calls)) w =
      stateAfter (execAll (s.exec line persist).session calls)
        (stateAfter (execLine s line persist) w) := rfl

section Laws

variable {path : String} [LawfulFiles σ path]

/-- The run lemma.  At first either nothing has been written and `table` can be loaded, or the file
holds `table` with some snapshot. -/
theorem holdsTable_execAll {table : Table} {calls : List (String × Bool)}
    {s : Calculator String} (hook : s.hook = some path) {w : σ}
    (hload : ∃ t, answer (Settings.loadTable path) w = .ok t ∧
      ∀ snapshot, withSnapshot t snapshot = withSnapshot table snapshot)
    (hfiles : ∀ a ∈ attempts path s calls w, FilesSucceeded a.result)
    (hback : ∀ a ∈ attempts path s calls w,
      ReadsBack (withSnapshot table (Snapshot.write a.environment))) :
    match (attempts path s calls w).getLast? with
    | none => stateAfter (execAll s calls) w = w
    | some a => HoldsTable path (withSnapshot table (Snapshot.write a.environment))
        (stateAfter (execAll s calls) w) := by
  induction calls generalizing s w with
  | nil => rfl
  | cons call calls ih =>
    obtain ⟨line, persist⟩ := call
    have hhook : (s.exec line persist).session.hook = some path :=
      (hook_exec s line persist).trans hook
    rw [stateAfter_execAll_cons]
    rw [attempts_cons] at hfiles hback ⊢
    cases hsave : persist && isSave line with
    | false =>
      rw [hsave, stateAfter_execLine_of_not_save hook hsave] at hfiles hback
      rw [stateAfter_execLine_of_not_save hook hsave]
      exact ih hhook hload hfiles hback
    | true =>
      have hstate := stateAfter_execLine_of_save hook hsave w
      rw [hsave, if_pos rfl, List.forall_mem_cons] at hfiles hback
      rw [if_pos rfl, List.getLast?_cons]
      -- Storing has succeeded, and the file holds the table with this snapshot.
      obtain ⟨t, ht, hsame⟩ := hload
      have hstored := Settings.store_eq_ok_of_filesSucceeded ht hfiles.1
      have hholds := Settings.holdsTable_of_store ht (by rw [hsame]; exact hback.1) hstored
      rw [hsame, ← hstate] at hholds
      have hlater := ih hhook ⟨_, hholds.loadTable, fun snapshot => by simp⟩ hfiles.2 hback.2
      split at hlater
      next hlast =>
        rw [hlast, hlater]
        exact hholds
      next a hlast =>
        rw [hlast]
        exact hlater

end Laws

/-- **The file holds the last save.**

* In a run whose operations on files succeed, with a table that can be written, all files are as
  they were until a line that persists saves.  From then on the file holds the snapshot of the
  environment right after the last such line, and everything else that it held at first, in the
  section `state` as well.  It is enough if the tables that are written in the run are read back.
* A line that is not to persist, or does not save, touches no file.
* A session with a file answers as one without, whatever happens to the file.
* A snapshot that could not be stored, for a reason other than writing, has changed nothing. -/
theorem file_holds_last_save (settings : Settings) (path : String) [LawfulFiles σ path] :
    (∀ (table : Table) (calls : List (String × Bool)) (w : σ),
      answer (Settings.loadTable path) w = .ok table →
      (table.Writable ∨ ∀ a ∈ attempts path (openSession settings (some path)) calls w,
        ReadsBack (withSnapshot table (Snapshot.write a.environment))) →
      (∀ a ∈ attempts path (openSession settings (some path)) calls w,
        FilesSucceeded a.result) →
      match (attempts path (openSession settings (some path)) calls w).getLast? with
      | none => stateAfter (execAll (openSession settings (some path)) calls) w = w
      | some a => ∃ held,
          HoldsTable path held
            (stateAfter (execAll (openSession settings (some path)) calls) w) ∧
          snapshot? held = some (Snapshot.write a.environment) ∧
          (∀ key, key ≠ "state" → Entries.get? key held = Entries.get? key table) ∧
          ∀ key, key ≠ "last_state" →
            Entries.get? key (stateFields held) = Entries.get? key (stateFields table)) ∧
    (∀ (s : Calculator String) (line : String) (persist : Bool) (w : σ), s.hook = some path →
      (persist && isSave line) = false → stateAfter (execLine s line persist) w = w) ∧
    (∀ (calls : List (String × Bool)) (w w' : σ),
      answer (execAll (openSession settings (some path)) calls) w =
        ({ (answer (execAll (openSession settings none) calls) w').1 with hook := some path },
          (answer (execAll (openSession settings none) calls) w').2)) ∧
    ∀ (snapshot : String) (w : σ) (fault : Fault),
      answer (Settings.store path snapshot) w = .error fault →
      (∀ p e, fault ≠ .write p e) → stateAfter (Settings.store path snapshot) w = w := by
  refine ⟨fun table calls w hload htable hfiles => ?_, fun s line persist w hook hsave => ?_,
    fun calls w w' => ?_, fun snapshot w fault h hfault => ?_⟩
  · have hback : ∀ a ∈ attempts path (openSession settings (some path)) calls w,
        ReadsBack (withSnapshot table (Snapshot.write a.environment)) :=
      htable.elim (fun hwritable a _ =>
        Settings.readsBack_withSnapshot (Settings.settled_of_loadTable hload) hwritable _) id
    have hrun := holdsTable_execAll rfl ⟨table, hload, fun _ => rfl⟩ hfiles hback
    split at hrun
    next => exact hrun
    next a _ =>
      exact ⟨_, hrun, Settings.snapshot?_withSnapshot _ _,
        fun key hkey => Settings.get?_withSnapshot_of_ne _ _ hkey,
        fun key hkey => Settings.get?_stateFields_of_ne _ _ hkey⟩
  · rw [stateAfter_execLine hook, hsave]
    rfl
  · exact answer_execAll_withHook (openSession settings none) (some path) calls w w'
  · exact Settings.stateAfter_store_of_fault h hfault

/-- A machine with a settings file in the working directory. -/
def Machine.withSettings (text : String) : Machine :=
  { files :=
      { workingDirectory := ["work"]
        nodes := [(["work"], none), (["work", "zappac.toml"], some text)] } }

section Examples

/-- Settings without colours. -/
def colorless : Machine := .withSettings "[repl]\ncolor = false\n"

/-- A line that saves, after one that fails and before a preview. -/
def oneSave : List (String × Bool) :=
  [("x = 2", true), ("x / 0", true), ("save(a)", true), ("save(b)", false)]

/-- The settings keep their section `repl` and get the snapshot of the only line that saves. -/
theorem file_holds_last_save_colorless :
    ∃ held, HoldsTable "zappac.toml" held
        (stateAfter (execAll (openSession {} (some "zappac.toml")) oneSave) colorless) ∧
      snapshot? held = some "\x7b\"variables\":\x7b\"x\":2\x7d,\"output\":\"dec\",\"saved\":\x7b\"a\":\x7b\"x\":2\x7d\x7d\x7d" ∧
      Entries.get? "repl" held = some (.table [("color", .boolean false)]) := by
  have h := (file_holds_last_save {} "zappac.toml").1
    [("repl", .table [("color", .boolean false)])] oneSave colorless
    (by decide +kernel) (.inl (by decide +kernel)) (by decide +kernel)
  have hsnapshots : (attempts "zappac.toml" (openSession {} (some "zappac.toml")) oneSave
      colorless).getLast?.map (fun a => Snapshot.write a.environment) =
        some "\x7b\"variables\":\x7b\"x\":2\x7d,\"output\":\"dec\",\"saved\":\x7b\"a\":\x7b\"x\":2\x7d\x7d\x7d" := by
    decide +kernel
  cases hlast : (attempts "zappac.toml" (openSession {} (some "zappac.toml")) oneSave
      colorless).getLast? with
  | none => simp [hlast] at hsnapshots
  | some a =>
    rw [hlast] at h hsnapshots
    obtain ⟨held, hheld, hsnapshot, hother, -⟩ := h
    exact ⟨held, hheld, hsnapshot.trans hsnapshots, hother "repl" (by decide)⟩

/-- A table with the name that marks a date, but not in the first place. -/
def marked : Machine := .withSettings "[a]\nb = 1\n\"$__toml_private_datetime\" = \"x\"\n"

/-- Two lines that save. -/
def twoSaves : List (String × Bool) := [("save(a)", true), ("x = 1", true), ("save(b)", true)]

/-- The settings are a table, and no operation on files fails, yet the file holds the snapshot of
the first line that saves after the second one.  The name that marks a date is sorted to the front
when the table is printed, so what the first line has written is not read again. -/
theorem lastSave_lost_behind_mark :
    (∃ table, answer (Settings.loadTable "zappac.toml") marked = .ok table) ∧
      (∀ a ∈ attempts "zappac.toml" (openSession {} (some "zappac.toml")) twoSaves marked,
        FilesSucceeded a.result) ∧
      (attempts "zappac.toml" (openSession {} (some "zappac.toml")) twoSaves
          marked).map (fun a => Snapshot.write a.environment) =
        ["\x7b\"variables\":\x7b\x7d,\"output\":\"dec\",\"saved\":\x7b\"a\":\x7b\x7d\x7d\x7d",
          "\x7b\"variables\":\x7b\"x\":1\x7d,\"output\":\"dec\",\"saved\":\x7b\"a\":\x7b\x7d,\"b\":\x7b\"x\":1\x7d\x7d\x7d"] ∧
      (((answer (Files.read "zappac.toml") (stateAfter
          (execAll (openSession {} (some "zappac.toml")) twoSaves) marked)).toOption.bind
            Toml.Parser.parse?).bind snapshot?) =
        some "\x7b\"variables\":\x7b\x7d,\"output\":\"dec\",\"saved\":\x7b\"a\":\x7b\x7d\x7d\x7d" := by
  refine ⟨⟨[("a", .table [(Toml.dateMark, .string "x"), ("b", .integer 1)])], ?_⟩, ?_, ?_, ?_⟩
  · decide +kernel
  · decide +kernel
  · decide +kernel
  · decide +kernel

end Examples

end Abacus.App
