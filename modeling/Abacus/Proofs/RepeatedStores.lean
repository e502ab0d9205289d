import Abacus.Proofs.GrowingTrees
import Abacus.Proofs.LastSave

/-!
# All stores of a run succeed, or none does

On a machine whose files nobody else touches there are no passing failures.  A store that fails
leaves the files such that the next one fails as well and changes nothing (`fails_of_store`),
and one that succeeds leaves a file in an existing directory, so the next one succeeds if the
table is read back (`CanWrite`).  Hence a run in which one store succeeds is a run in which all
of them do (`result_eq_ok_of_mem_attempts`), and the file holds the last save by what is known
of such runs.
-/

namespace Abacus.App

open Settings (Fault HoldsTable withSnapshot directoryOf makeDirectoryOf)
open Toml (Table ReadsBack)
open FileTree (Grows Tidy)
open Calculator (isSave)

namespace Machine

variable {w : Machine} {path : String}

theorem tidy_directoryOf (path : String) : Tidy (directoryOf path) := by
  unfold directoryOf
  cases h : Path.parent? path with
  | none => exact .inr (by simp)
  | some parent => exact FileTree.tidy_of_parent h

/-! ## Growth -/

theorem grows_ensureDirectory (path : String) {directory : String} (htidy : Tidy directory)
    (w : Machine) :
    Grows path w.files (stateAfter (Files.ensureDirectory directory) w).files := by
  unfold Files.ensureDirectory
  rw [stateAfter_bind, answer_makeDirectory, stateAfter_makeDirectory]
  cases hmake : w.files.makeDirectory directory with
  | ok files =>
    obtain ⟨place, -, hkind, rfl⟩ := FileTree.makeDirectory_eq_ok htidy hmake
    exact FileTree.grows_put_directory path hkind
  | error e =>
    simp only [Except.map, withFiles, stateAfter_bind, stateAfter_isDirectory]
    split <;> exact .refl _ _

theorem grows_makeDirectoriesIn (path : String) {n : Nat} {directory : String}
    (htidy : Tidy directory) (w : Machine) :
    Grows path w.files
      (stateAfter (Files.makeDirectoriesIn (Path.ancestorsWithin n directory)) w).files := by
  induction n using Nat.strongRecOn generalizing directory w with
  | ind n ih =>
    obtain ⟨parents, heq, hparents⟩ := ancestorsWithin_eq n directory
    rw [heq]
    have hgrows : Grows path w.files
        (stateAfter (Files.makeDirectoriesIn parents) w).files := by
      rcases hparents with rfl | ⟨k, parent, rfl, hparent, rfl⟩
      · exact .refl _ _
      · exact ih k (Nat.lt_succ_self k) (FileTree.tidy_of_parent hparent) w
    by_cases hne : directory = ""
    · subst hne
      exact .refl _ _
    · rcases makeDirectoriesIn_cons hne htidy parents w with ⟨-, -, hstate⟩ |
        ⟨e, -, -, -, hstate⟩ | ⟨-, -, -, hstate⟩ | ⟨e, -, -, -, hstate⟩
      · rw [hstate]
        exact grows_ensureDirectory path htidy w
      · rw [hstate]
        exact .refl _ _
      · rw [hstate]
        exact hgrows.trans (grows_ensureDirectory path htidy _)
      · rw [hstate]
        exact hgrows

theorem grows_makeDirectoryOf (path : String) (w : Machine) :
    Grows path w.files (stateAfter (makeDirectoryOf path) w).files := by
  unfold makeDirectoryOf
  split
  next => exact .refl _ _
  next => exact grows_makeDirectoriesIn path (tidy_directoryOf path) w

theorem grows_write (path contents : String) (w : Machine) :
    Grows path w.files (stateAfter (Files.write path contents) w).files := by
  rw [stateAfter_write]
  cases h : w.files.write path contents with
  | ok files => exact FileTree.grows_write h
  | error e => exact .refl _ _

theorem grows_writeFile (path contents : String) (w : Machine) :
    Grows path w.files (stateAfter (Settings.writeFile path contents) w).files := by
  rw [Settings.writeFile_eq, stateAfter_bind]
  have hmade := grows_makeDirectoryOf path w
  split
  next => exact hmade
  next =>
    rw [stateAfter_bind]
    have hwritten := hmade.trans (grows_write path contents _)
    split <;> exact hwritten

/-- Storing takes nothing away, whether or not it succeeds. -/
theorem grows_store (path snapshot : String) (w : Machine) :
    Grows path w.files (stateAfter (Settings.store path snapshot) w).files := by
  cases hload : answer (Settings.loadTable path) w with
  | error fault =>
    rw [(Settings.store_of_loadTable_error _ hload).2]
    exact .refl _ _
  | ok table =>
    rw [(Settings.store_of_loadTable snapshot hload).2]
    exact grows_writeFile path _ w

/-- Nor does a run. -/
theorem grows_execAll {s : Calculator String} (hook : s.hook = some path)
    (calls : List (String × Bool)) (w : Machine) :
    Grows path w.files (stateAfter (execAll s calls) w).files := by
  induction calls generalizing s w with
  | nil => exact .refl _ _
  | cons call calls ih =>
    obtain ⟨line, persist⟩ := call
    rw [stateAfter_execAll_cons]
    refine .trans ?_ (ih ((hook_exec s line persist).trans hook) _)
    rw [stateAfter_execLine hook]
    split
    next => exact grows_store path _ w
    next => exact .refl _ _

/-! ## After a success -/

/-- There is a file at the path, in a directory. -/
def CanWrite (path : String) (w : Machine) : Prop :=
  (directoryOf path = "" ∨ w.files.kind (directoryOf path) = .ok .directory) ∧
    w.files.kind path = .ok .file

theorem makeDirectoryOf_of_directory
    (h : directoryOf path = "" ∨ w.files.kind (directoryOf path) = .ok .directory) :
    answer (makeDirectoryOf path) w = .ok () ∧ stateAfter (makeDirectoryOf path) w = w := by
  unfold makeDirectoryOf
  split
  next => exact ⟨rfl, rfl⟩
  next =>
    obtain ⟨parents, heq, -⟩ := ancestorsWithin_eq (directoryOf path).length (directoryOf path)
    unfold Files.makeDirectories Path.ancestors
    rw [heq]
    exact makeDirectoriesIn_of_directory (tidy_directoryOf path) h parents

theorem directory_of_makeDirectoryOf (h : answer (makeDirectoryOf path) w = .ok ()) :
    directoryOf path = "" ∨
      (stateAfter (makeDirectoryOf path) w).files.kind (directoryOf path) = .ok .directory := by
  unfold makeDirectoryOf at h ⊢
  split at h
  next hempty => exact .inl (String.isEmpty_iff.mp hempty)
  next hne =>
    rw [if_neg hne]
    obtain ⟨parents, heq, -⟩ := ancestorsWithin_eq (directoryOf path).length (directoryOf path)
    unfold Files.makeDirectories Path.ancestors at h ⊢
    rw [heq] at h ⊢
    exact kind_of_makeDirectoriesIn (tidy_directoryOf path) h

theorem CanWrite.writeFile (h : CanWrite path w) (contents : String) :
    answer (Settings.writeFile path contents) w = .ok () := by
  obtain ⟨hmade, hsame⟩ := makeDirectoryOf_of_directory h.1
  obtain ⟨place, hplace, hkind⟩ := FileTree.kind_eq_ok_iff.mp h.2
  rw [Settings.writeFile_eq, answer_bind, hmade, hsame]
  simp only [answer_bind]
  rw [answer_write, FileTree.write, hplace]
  simp only [hkind, reduceCtorEq, Option.some.injEq, if_false]
  rfl

theorem canWrite_of_writeFile {contents : String}
    (h : answer (Settings.writeFile path contents) w = .ok ()) :
    CanWrite path (stateAfter (Settings.writeFile path contents) w) := by
  obtain ⟨hmade, hwrite, hafter⟩ := Settings.writeFile_eq_ok h
  rw [hafter]
  generalize hv : stateAfter (makeDirectoryOf path) w = v at hwrite ⊢
  refine ⟨(directory_of_makeDirectoryOf hmade).imp_right fun hdirectory => ?_, ?_⟩
  · rw [hv] at hdirectory
    exact (grows_write path contents v).kind_directory hdirectory
  · rw [answer_write] at hwrite
    rw [stateAfter_write]
    cases hfiles : v.files.write path contents with
    | error e => simp [hfiles, Except.map] at hwrite
    | ok files => exact FileTree.kind_of_write hfiles

/-- After a store that succeeded the next one succeeds. -/
theorem canWrite_of_store {snapshot : String}
    (h : answer (Settings.store path snapshot) w = .ok ()) :
    CanWrite path (stateAfter (Settings.store path snapshot) w) := by
  cases hload : answer (Settings.loadTable path) w with
  | error fault =>
    rw [(Settings.store_of_loadTable_error _ hload).1] at h
    cases h
  | ok table =>
    obtain ⟨hanswer, hstate⟩ := Settings.store_of_loadTable snapshot hload
    rw [hstate]
    exact canWrite_of_writeFile (hanswer.symm.trans h)

/-! ## After a failure -/

/-- No snapshot can be stored, and trying changes nothing. -/
def Fails (path : String) (w : Machine) : Prop :=
  ∀ snapshot, (∃ fault, answer (Settings.store path snapshot) w = .error fault) ∧
    stateAfter (Settings.store path snapshot) w = w

/-- It suffices that no file can be written. -/
theorem fails_of_writeFile
    (h : ∀ contents, (∃ fault, answer (Settings.writeFile path contents) w = .error fault) ∧
      stateAfter (Settings.writeFile path contents) w = w) : Fails path w := by
  intro snapshot
  cases hload : answer (Settings.loadTable path) w with
  | error fault =>
    obtain ⟨hanswer, hstate⟩ := Settings.store_of_loadTable_error snapshot hload
    exact ⟨⟨fault, hanswer⟩, hstate⟩
  | ok table =>
    obtain ⟨hanswer, hstate⟩ := Settings.store_of_loadTable snapshot hload
    rw [hanswer, hstate]
    exact h _

/-- Directories that cannot be made stay in the way. -/
theorem stuck_makeDirectoryOf {e : FileError} (h : answer (makeDirectoryOf path) w = .error e) :
    (∃ e', answer (makeDirectoryOf path) (stateAfter (makeDirectoryOf path) w) = .error e') ∧
      stateAfter (makeDirectoryOf path) (stateAfter (makeDirectoryOf path) w) =
        stateAfter (makeDirectoryOf path) w := by
  unfold makeDirectoryOf at h ⊢
  split at h
  next => cases h
  next hne =>
    rw [if_neg hne]
    exact stuck_of_makeDirectoriesIn (tidy_directoryOf path) h

/-- Whether a file can be written does not depend on what is written. -/
theorem write_error {contents : String} {e : FileError}
    (h : answer (Files.write path contents) w = .error e) (contents' : String) :
    answer (Files.write path contents') w = .error e ∧
      stateAfter (Files.write path contents') w = w := by
  rw [answer_write] at h ⊢
  rw [stateAfter_write]
  unfold FileTree.write at h ⊢
  cases hplace : w.files.place path with
  | error e' =>
    rw [hplace] at h
    exact ⟨h, rfl⟩
  | ok place =>
    simp only [hplace] at h ⊢
    split at h
    next hkind =>
      rw [if_pos hkind]
      exact ⟨h, rfl⟩
    next => cases h

/-- A file that holds no table is left as it is. -/
theorem fails_of_loadTable_error {fault : Fault}
    (h : answer (Settings.loadTable path) w = .error fault) : Fails path w := by
  intro snapshot
  obtain ⟨hanswer, hstate⟩ := Settings.store_of_loadTable_error snapshot h
  exact ⟨⟨fault, hanswer⟩, hstate⟩

theorem fails_of_makeDirectoryOf_error {e : FileError}
    (h : answer (makeDirectoryOf path) w = .error e) :
    Fails path (stateAfter (makeDirectoryOf path) w) := by
  obtain ⟨⟨e', hstuck⟩, hsame⟩ := stuck_makeDirectoryOf h
  refine fails_of_writeFile fun contents => ?_
  rcases Settings.writeFile_cases path contents (stateAfter (makeDirectoryOf path) w) with
    ⟨e'', -, herror, hafter⟩ | ⟨hok, -⟩
  · exact ⟨⟨_, herror⟩, hafter.trans hsame⟩
  · cases hstuck.symm.trans hok

/-- Where the directory is there and the file cannot be written. -/
theorem fails_of_write_error {contents : String} {e : FileError}
    (hmade : answer (makeDirectoryOf path) w = .ok ())
    (hsame : stateAfter (makeDirectoryOf path) w = w)
    (h : answer (Files.write path contents) w = .error e) : Fails path w := by
  refine fails_of_writeFile fun contents' => ?_
  obtain ⟨herror, hunchanged⟩ := write_error h contents'
  rcases Settings.writeFile_cases path contents' w with ⟨e', hfailed, -⟩ | ⟨-, hanswer, hafter⟩
  · cases hmade.symm.trans hfailed
  · rw [hsame] at hanswer hafter
    rw [herror] at hanswer
    exact ⟨⟨_, hanswer⟩, hafter.trans hunchanged⟩

/-- **A failure is for good.** -/
theorem fails_of_store {snapshot : String} {fault : Fault}
    (h : answer (Settings.store path snapshot) w = .error fault) :
    Fails path (stateAfter (Settings.store path snapshot) w) := by
  cases hload : answer (Settings.loadTable path) w with
  | error fault' =>
    rw [(Settings.store_of_loadTable_error _ hload).2]
    exact fails_of_loadTable_error hload
  | ok table =>
    obtain ⟨hanswer, hstate⟩ := Settings.store_of_loadTable snapshot hload
    rw [hstate]
    rw [hanswer] at h
    rcases Settings.writeFile_cases path (Toml.print (withSnapshot table snapshot)) w with
      ⟨e, hmade, -, hafter⟩ | ⟨hmade, hwritten, hafter⟩
    · rw [hafter]
      exact fails_of_makeDirectoryOf_error hmade
    · obtain ⟨hmade', hsame⟩ := makeDirectoryOf_of_directory (directory_of_makeDirectoryOf hmade)
      cases hwrite : answer (Files.write path (Toml.print (withSnapshot table snapshot)))
          (stateAfter (makeDirectoryOf path) w) with
      | ok u =>
        rw [hwritten, hwrite] at h
        cases h
      | error e =>
        rw [hafter, (write_error hwrite _).2]
        exact fails_of_write_error hmade' hsame hwrite

/-! ## Runs -/

/-- Once storing fails, it fails throughout. -/
theorem Fails.attempts {s : Calculator String} (hook : s.hook = some path)
    {calls : List (String × Bool)} (h : Fails path w) :
    ∀ a ∈ attempts path s calls w, ∃ fault, a.result = .error fault := by
  induction calls generalizing s with
  | nil => exact nofun
  | cons call calls ih =>
    obtain ⟨line, persist⟩ := call
    have hsame : stateAfter (execLine s line persist) w = w := by
      rw [stateAfter_execLine hook]
      split
      next => exact (h _).2
      next => rfl
    rw [attempts_cons, hsame]
    have hlater := ih ((hook_exec s line persist).trans hook)
    split
    next => exact List.forall_mem_cons.mpr ⟨(h _).1, hlater⟩
    next => exact hlater

/-- Once storing succeeds, it succeeds throughout. -/
theorem CanWrite.attempts {s : Calculator String} (hook : s.hook = some path)
    {calls : List (String × Bool)} {table t : Table} (h : CanWrite path w)
    (hload : answer (Settings.loadTable path) w = .ok t)
    (hsame : ∀ snapshot, withSnapshot t snapshot = withSnapshot table snapshot)
    (hback : ∀ a ∈ App.attempts path s calls w,
      ReadsBack (withSnapshot table (Snapshot.write a.environment))) :
    ∀ a ∈ App.attempts path s calls w, a.result = .ok () := by
  induction calls generalizing s w t with
  | nil => exact nofun
  | cons call calls ih =>
    obtain ⟨line, persist⟩ := call
    have hhook := (hook_exec s line persist).trans hook
    rw [attempts_cons] at hback ⊢
    cases hsave : persist && isSave line with
    | false =>
      have hstate := stateAfter_execLine_of_not_save hook hsave w
      rw [hsave, hstate] at hback
      rw [hstate]
      exact ih hhook h hload hsame hback
    | true =>
      rw [hsave, if_pos rfl, List.forall_mem_cons] at hback
      have hstore := (Settings.store_of_loadTable
        (Snapshot.write (s.exec line persist).session.environment) hload).1.trans (h.writeFile _)
      have hstate := stateAfter_execLine_of_save hook hsave w
      have hholds := Settings.holdsTable_of_store hload (by rw [hsame]; exact hback.1) hstore
      rw [if_pos rfl]
      refine List.forall_mem_cons.mpr ⟨hstore, ?_⟩
      rw [hstate] at hback ⊢
      exact ih hhook (canWrite_of_store hstore) hholds.loadTable
        (fun snapshot => by simp [hsame]) hback.2

/-- **All or nothing.**  If one store of a run succeeds, then there is a table to begin with, and
all of them succeed. -/
theorem result_eq_ok_of_mem_attempts {s : Calculator String} (hook : s.hook = some path)
    {calls : List (String × Bool)} {a : Attempt} (ha : a ∈ attempts path s calls w)
    (hok : a.result = .ok ()) :
    ∃ table, answer (Settings.loadTable path) w = .ok table ∧
      ((∀ b ∈ attempts path s calls w,
          ReadsBack (withSnapshot table (Snapshot.write b.environment))) →
        ∀ b ∈ attempts path s calls w, b.result = .ok ()) := by
  induction calls generalizing s with
  | nil => cases ha
  | cons call calls ih =>
    obtain ⟨line, persist⟩ := call
    have hhook := (hook_exec s line persist).trans hook
    rw [attempts_cons] at ha ⊢
    cases hsave : persist && isSave line with
    | false =>
      have hstate := stateAfter_execLine_of_not_save hook hsave w
      rw [hsave, hstate] at ha
      rw [hstate]
      exact ih hhook ha
    | true =>
      have hstate := stateAfter_execLine_of_save hook hsave w
      rw [hsave, if_pos rfl, hstate] at ha
      rw [if_pos rfl, hstate]
      cases hstore : answer (Settings.store path
          (Snapshot.write (s.exec line persist).session.environment)) w with
      | error fault =>
        -- Then the later ones fail as well, so none succeeds.
        rcases List.mem_cons.mp ha with rfl | ha
        · cases hstore.symm.trans hok
        · obtain ⟨fault', hfault⟩ := (fails_of_store hstore).attempts hhook a ha
          cases hfault.symm.trans hok
      | ok u =>
        cases hload : answer (Settings.loadTable path) w with
        | error fault =>
          cases (Settings.store_of_loadTable_error _ hload).1.symm.trans hstore
        | ok table =>
          refine ⟨table, rfl, fun hback => ?_⟩
          rw [List.forall_mem_cons] at hback
          have hholds := Settings.holdsTable_of_store hload hback.1 hstore
          exact List.forall_mem_cons.mpr ⟨rfl, (canWrite_of_store hstore).attempts hhook
            hholds.loadTable (fun snapshot => by simp) hback.2⟩

end Machine

end Abacus.App
