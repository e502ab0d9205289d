import Abacus.App.Machine
import Abacus.Settings.Store

/-!
# Files alone

All that the program does with files is composed of four operations, and on the machine these touch
nothing but its files.  So the same holds of whatever is composed of them: it is what it would be on
the tree of files, with the two outputs as they were.
-/

namespace Abacus.App

namespace Machine

variable {α β : Type}

theorem onFiles_bind (x : StateM FileTree α) (f : α → StateM FileTree β) :
    onFiles (x >>= f) = onFiles x >>= fun a => onFiles (f a) := rfl

theorem onFiles_isPresent (path : String) :
    onFiles (Files.isPresent path) = Files.isPresent path := by
  unfold Files.isPresent
  rw [onFiles_bind]
  refine bind_congr fun found => ?_
  cases found <;> rfl

theorem onFiles_ensureDirectory (path : String) :
    onFiles (Files.ensureDirectory path) = Files.ensureDirectory path := by
  unfold Files.ensureDirectory Files.isDirectory
  rw [onFiles_bind]
  refine bind_congr fun made => ?_
  cases made with
  | ok _ => rfl
  | error e =>
    simp only [onFiles_bind, bind_assoc]
    refine bind_congr fun found => ?_
    rcases found with _ | _ | _ <;> rfl

theorem onFiles_makeDirectoriesIn (paths : List String) :
    onFiles (Files.makeDirectoriesIn paths) = Files.makeDirectoriesIn paths := by
  induction paths with
  | nil => rfl
  | cons path parents ih =>
    unfold Files.makeDirectoriesIn
    split
    · rfl
    · rw [onFiles_bind, onFiles_ensureDirectory]
      refine bind_congr fun made => ?_
      split
      · rw [onFiles_bind, ih]
        refine bind_congr fun above => ?_
        cases above with
        | ok _ => exact onFiles_ensureDirectory path
        | error e => rfl
      · rfl

theorem onFiles_makeDirectories (path : String) :
    onFiles (Files.makeDirectories path) = Files.makeDirectories path :=
  onFiles_makeDirectoriesIn _

theorem onFiles_loadTable (path : String) :
    onFiles (Settings.loadTable path) = Settings.loadTable path := by
  unfold Settings.loadTable
  rw [onFiles_bind, onFiles_isPresent]
  refine bind_congr fun found => ?_
  split
  · rw [onFiles_bind]
    refine bind_congr fun contents => ?_
    cases contents with
    | error e => rfl
    | ok text =>
      dsimp only
      cases (Toml.Parser.parse? text).bind Toml.Table.canonical? <;> rfl
  · rfl

theorem onFiles_writeFile (path contents : String) :
    onFiles (Settings.writeFile path contents) = Settings.writeFile path contents := by
  unfold Settings.writeFile
  dsimp only
  split
  · simp only [pure_bind]
    rw [onFiles_bind]
    refine bind_congr fun written => ?_
    cases written <;> rfl
  · rw [onFiles_bind, onFiles_makeDirectories]
    refine bind_congr fun made => ?_
    cases made with
    | error e => rfl
    | ok _ =>
      dsimp only
      rw [onFiles_bind]
      refine bind_congr fun written => ?_
      cases written <;> rfl

theorem onFiles_store (path snapshot : String) :
    onFiles (Settings.store path snapshot) = Settings.store path snapshot := by
  unfold Settings.store
  rw [onFiles_bind, onFiles_loadTable]
  refine bind_congr fun table => ?_
  cases table with
  | error fault => rfl
  | ok table => exact onFiles_writeFile path _

end Machine

end Abacus.App
