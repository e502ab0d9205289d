import Abacus.Proofs.GrowingTrees
import Abacus.Proofs.PathNames

/-!
# Which settings file is found

Settings are looked for in the working directory and the directories above it, and last in the
home directory.  A store may make a file, and with it directories, so what is found after a
store is a question of its own.

The answer is that the search finds the file that has been stored.  A path that was looked at in
vain leads to a new file only if it leads to that one, because the working directory exists: the
directories on the way to it were all there before, so none of the new directories opens up a way
(`ne_notFound_of_mem_candidates`).  If there was a file before, it is found under the same path
(`find_of_found`).  Otherwise the path may be another one, if the home directory is written in a
way in which the search above the working directory does not write it (`find_of_made`).
-/

namespace Abacus.App.Machine

open FileTree (Grows)
open Settings (candidates userPath)

variable {w w' : Machine}

/-- Whether a file stands at a path. -/
def hasFile (w : Machine) (path : String) : Bool :=
  match w.files.kind path with
  | .ok .file => true
  | _ => false

theorem hasFile_iff {path : String} :
    w.hasFile path = true ↔ w.files.kind path = .ok .file := by
  unfold hasFile
  split <;> simp_all

theorem answer_isFile (path : String) (w : Machine) :
    answer (Files.isFile path) w = w.hasFile path := by
  unfold Files.isFile
  rw [answer_bind, answer_kind]
  split
  next h => simp [hasFile, h]
  next h =>
    have hfile : w.hasFile path = false := by simpa using mt hasFile_iff.mp h
    rw [hfile]
    rfl

theorem stateAfter_isFile (path : String) (w : Machine) :
    stateAfter (Files.isFile path) w = w := by
  unfold Files.isFile
  rw [stateAfter_bind, answer_kind]
  split <;> rfl

/-- The first path at which there is a file is found by looking. -/
theorem firstFile_eq (paths : List String) (w : Machine) :
    answer (Settings.firstFile paths) w = paths.find? w.hasFile ∧
      stateAfter (Settings.firstFile paths) w = w := by
  induction paths with
  | nil => exact ⟨rfl, rfl⟩
  | cons path paths ih =>
    rw [Settings.firstFile, answer_bind, stateAfter_bind, answer_isFile, stateAfter_isFile,
      List.find?_cons]
    cases w.hasFile path with
    | true => exact ⟨rfl, rfl⟩
    | false => exact ih

/-! ## The ways to the candidates -/

/-- A directory from which paths can be followed further. -/
def IsBase (t : FileTree) (directory : String) : Prop :=
  (directory = "" ∧ t.kindAt? t.workingDirectory = some .directory) ∨
    t.kind directory = .ok .directory

theorem isBase_parent {t : FileTree} {directory parent : String} (h : IsBase t directory)
    (hparent : Path.parent? directory = some parent) : IsBase t parent := by
  rcases h with ⟨rfl, -⟩ | h
  · simp [Path.parent?, Path.splitLead, Path.trimTail] at hparent
  · obtain ⟨place, hplace, -⟩ := FileTree.kind_eq_ok_iff.mp h
    by_cases hne : parent = ""
    · refine .inl ⟨hne, FileTree.kindAt?_workingDirectory hplace ?_⟩
      rcases Path.parent?_spec hparent with ⟨-, hrelative⟩ | ⟨hroot, -⟩ | ⟨hne', -⟩
      · exact hrelative
      · rw [hne] at hroot
        exact absurd hroot (by decide)
      · exact absurd hne hne'
    · exact .inr (FileTree.kind_parent hplace hparent hne)

theorem isBase_of_mem_ancestorsWithin {t : FileTree} {n : Nat} {directory d : String}
    (h : IsBase t directory) (hd : d ∈ Path.ancestorsWithin n directory) : IsBase t d := by
  induction n using Nat.strongRecOn generalizing directory with
  | ind n ih =>
    obtain ⟨parents, heq, hparents⟩ := ancestorsWithin_eq n directory
    rw [heq] at hd
    rcases List.mem_cons.mp hd with rfl | hd
    · exact h
    · rcases hparents with rfl | ⟨k, parent, rfl, hparent, rfl⟩
      · cases hd
      · exact ih k (Nat.lt_succ_self k) (isBase_parent h hparent) hd

theorem place_ne_notFound {t : FileTree} {path : String} (hne : path ≠ "")
    (h : t.follow (if Path.isAbsolute path then [] else t.workingDirectory)
      (Path.split path.toList) ≠ .error .notFound) : t.place path ≠ .error .notFound := by
  unfold FileTree.place
  rw [if_neg (mt String.isEmpty_iff.mp hne)]
  split
  next => nofun
  next =>
    split
    next => nofun
    next => exact h

/-- In a directory the settings file has a place. -/
theorem follow_fileName {t : FileTree} {place : Place} (h : t.kindAt? place = some .directory) :
    t.follow place [Settings.fileName.toList] = .ok (place ++ [Settings.fileName]) := by
  have hname : Settings.fileName.toList ≠ [] ∧ Settings.fileName.toList ≠ ['.'] ∧
      Settings.fileName.toList ≠ ['.', '.'] ∧
      ¬ FileTree.nameLimit < Text.byteSize Settings.fileName.toList := by decide +kernel
  obtain ⟨hempty, hdot, hdots, hsize⟩ := hname
  rw [FileTree.follow, h]
  simp only [hempty, hdot, hdots, hsize, or_self, if_false, FileTree.follow, String.ofList_toList]

theorem isAbsolute_fileName : Path.isAbsolute Settings.fileName = false := by decide +kernel

theorem split_fileName : Path.split Settings.fileName.toList = [Settings.fileName.toList] :=
  Path.split_of_not_mem (by decide +kernel)

/-- A settings file in a directory that is there leads somewhere, unless its path gets too
long. -/
theorem place_join_ne_notFound {t : FileTree} {directory : String} (h : IsBase t directory) :
    t.place (Path.join directory Settings.fileName) ≠ .error .notFound := by
  rcases h with ⟨rfl, hkind⟩ | hkind
  · rw [Path.join_empty isAbsolute_fileName]
    refine place_ne_notFound (by decide) ?_
    rw [split_fileName, isAbsolute_fileName, if_neg Bool.false_ne_true, follow_fileName hkind]
    nofun
  · obtain ⟨place, hplace, hkind⟩ := FileTree.kind_eq_ok_iff.mp hkind
    obtain ⟨-, hne, -, hfollow⟩ := FileTree.place_eq_ok_iff.mp hplace
    obtain ⟨habsolute, hjoined, front, hjoin, hfront⟩ :=
      Path.split_join hne isAbsolute_fileName
    refine place_ne_notFound hjoined ?_
    rw [habsolute, hjoin, split_fileName, FileTree.follow_append]
    generalize (if Path.isAbsolute directory then [] else t.workingDirectory) = start
      at hfollow ⊢
    -- The name stands in the directory to which the components before it lead.
    have hbase : ∃ base, t.follow start front = .ok base ∧ t.kindAt? base = some .directory := by
      rcases hfront with hfront | hfront
      · exact ⟨place, hfront ▸ hfollow, hkind⟩
      · rw [hfront, FileTree.follow_append] at hfollow
        cases hto : t.follow start front with
        | error e => simp [hto, Except.bind] at hfollow
        | ok base =>
          rw [hto] at hfollow
          exact ⟨base, rfl, FileTree.kindAt?_of_follow_cons hfollow⟩
    obtain ⟨base, hto, hdirectory⟩ := hbase
    rw [hto]
    show t.follow base [Settings.fileName.toList] ≠ _
    rw [follow_fileName hdirectory]
    nofun

/-- Nothing is missing on the way to the places where the settings of a project are looked
for. -/
theorem ne_notFound_of_mem_candidates {t : FileTree} {directory : Option String}
    (h : ∀ d, directory = some d → t.kind d = .ok .directory) {path : String}
    (hpath : path ∈ candidates directory none) : t.place path ≠ .error .notFound := by
  unfold candidates at hpath
  cases directory with
  | none => cases hpath
  | some directory =>
    simp only [Option.map_none, Option.toList_none, List.append_nil, List.mem_map] at hpath
    obtain ⟨d, hd, rfl⟩ := hpath
    exact place_join_ne_notFound (isBase_of_mem_ancestorsWithin (.inr (h _ rfl)) hd)

/-- Where the working directory and the home directory are written without going upwards, all
paths at which settings are looked for are. -/
theorem forward_of_mem_candidates {directory home : Option String}
    (h : ∀ p, directory = some p ∨ home = some p → Path.Forward p) {path : String}
    (hpath : path ∈ candidates directory home) : Path.Forward path := by
  have hname : ∀ {base : String}, Path.Forward base → ∀ child : String,
      child ∈ [".config", "zappac", Settings.fileName] → Path.Forward (Path.join base child) := by
    intro base hbase child hchild
    have hplain : ∀ child ∈ [".config", "zappac", Settings.fileName],
        Path.isAbsolute child = false ∧ ['.', '.'] ∉ Path.names child := by decide +kernel
    exact hbase.join (hplain child hchild).1 (hplain child hchild).2
  unfold candidates at hpath
  rcases List.mem_append.mp hpath with hpath | hpath
  · cases directory with
    | none => cases hpath
    | some directory =>
      obtain ⟨d, hd, rfl⟩ := List.mem_map.mp hpath
      exact hname ((h directory (.inl rfl)).of_mem_ancestorsWithin hd) _ (by simp)
  · cases home with
    | none => cases hpath
    | some home =>
      obtain rfl : path = userPath home := by simpa using hpath
      exact hname (hname (hname (h home (.inr rfl)) _ (by simp)) _ (by simp)) _ (by simp)

theorem candidates_eq_append (directory home : Option String) :
    candidates directory home = candidates directory none ++ (home.map userPath).toList := by
  unfold candidates
  simp

/-! ## Searching again -/

section Search

variable {path : String} {directory home : Option String}

/-- A path that leads to a file leads there from then on. -/
theorem hasFile_of_grows {other : String} (hgrows : Grows path w.files w'.files)
    (h : w.hasFile other = true) : w'.hasFile other = true := by
  obtain ⟨place, hplace, hkind⟩ := FileTree.kind_eq_ok_iff.mp (hasFile_iff.mp h)
  exact hasFile_iff.mpr (FileTree.kind_eq_ok_iff.mpr
    ⟨place, hgrows.place_eq_ok hplace, hgrows.file_kept place hkind⟩)

/-- Where a file has come into being it is the one at the path. -/
theorem hasFile_or_place_eq {other : String} (hgrows : Grows path w.files w'.files)
    (hother : w.files.place other ≠ .error .notFound) (h : w'.hasFile other = true) :
    w.hasFile other = true ∨ w'.files.place other = w'.files.place path := by
  obtain ⟨place, hplace, hkind⟩ := FileTree.kind_eq_ok_iff.mp (hasFile_iff.mp h)
  rcases hgrows.file_new place hkind with hfile | hpath
  · exact .inl (hasFile_iff.mpr (FileTree.kind_eq_ok_iff.mpr
      ⟨place, (hgrows.place_eq hother).symm.trans hplace, hfile⟩))
  · exact .inr (hplace.trans hpath.symm)

/-- If the file at the path was there before, no file has come into being. -/
theorem hasFile_of_hasFile {other : String} (hgrows : Grows path w.files w'.files)
    (hpath : w.hasFile path = true) (hother : w.files.place other ≠ .error .notFound)
    (h : w'.hasFile other = true) : w.hasFile other = true := by
  rcases hasFile_or_place_eq hgrows hother h with h | h
  · exact h
  · obtain ⟨place, hplace, hkind⟩ := FileTree.kind_eq_ok_iff.mp (hasFile_iff.mp hpath)
    rw [hgrows.place_eq_ok hplace, hgrows.place_eq hother] at h
    exact hasFile_iff.mpr (FileTree.kind_eq_ok_iff.mpr ⟨place, h, hkind⟩)

variable (hdirectory : ∀ d, directory = some d → w.files.kind d = .ok .directory)
  (hgrows : Grows path w.files w'.files)

include hdirectory hgrows

/-- **A file that has been found is found again**, under the same path. -/
theorem find_of_found (h : (candidates directory home).find? w.hasFile = some path) :
    (candidates directory home).find? w'.hasFile = some path := by
  have hpath : w.hasFile path = true := List.find?_some h
  have hnone : ∀ other ∈ candidates directory none, w.hasFile other = false →
      w'.hasFile other = false := fun other hother hfalse => by
    refine Bool.eq_false_iff.mpr fun htrue => ?_
    rw [hasFile_of_hasFile hgrows hpath (ne_notFound_of_mem_candidates hdirectory hother) htrue]
      at hfalse
    cases hfalse
  rw [candidates_eq_append, List.find?_append] at h ⊢
  cases hown : (candidates directory none).find? w.hasFile with
  | some found =>
    rw [hown] at h
    obtain rfl := Option.some.inj h
    obtain ⟨-, before, behind, heq, hbefore⟩ := List.find?_eq_some_iff_append.mp hown
    have hown' : (candidates directory none).find? w'.hasFile = some found := by
      refine List.find?_eq_some_iff_append.mpr
        ⟨hasFile_of_grows hgrows hpath, before, behind, heq, fun other hother => ?_⟩
      have hmem : other ∈ candidates directory none := heq ▸ List.mem_append_left _ hother
      simpa using hnone other hmem (by simpa using hbefore other hother)
    rw [hown']
    rfl
  | none =>
    rw [hown, Option.none_or] at h
    have hown' : (candidates directory none).find? w'.hasFile = none := by
      rw [List.find?_eq_none] at hown ⊢
      intro other hother
      have := hnone other hother (by simpa using hown other hother)
      simp [this]
    rw [hown', Option.none_or]
    cases home with
    | none => cases h
    | some home =>
      have hmem := List.mem_of_find?_eq_some h
      obtain rfl : path = userPath home := by simpa using hmem
      simp [hasFile_of_grows hgrows hpath]

/-- **A file that has been made is found**, under its path or another one that leads to the same
place. -/
theorem find_of_made {user : String} (hpath : path = userPath user)
    (hnone : (candidates directory (some user)).find? w.hasFile = none)
    (hmade : w'.hasFile path = true) :
    ∃ found, (candidates directory (some user)).find? w'.hasFile = some found ∧
      w'.files.place found = w'.files.place path ∧
      (found = path ∨ found ∈ candidates directory none) := by
  rw [candidates_eq_append, List.find?_append] at hnone ⊢
  obtain ⟨hown, -⟩ := Option.or_eq_none_iff.mp hnone
  cases hfound : (candidates directory none).find? w'.hasFile with
  | some found =>
    have hmem := List.mem_of_find?_eq_some hfound
    refine ⟨found, rfl, ?_, .inr hmem⟩
    refine (hasFile_or_place_eq hgrows (ne_notFound_of_mem_candidates hdirectory hmem)
      (List.find?_some hfound)).resolve_left ?_
    simpa using List.find?_eq_none.mp hown found hmem
  | none =>
    refine ⟨path, ?_, rfl, .inl rfl⟩
    rw [hpath] at hmade ⊢
    simp [hmade]

end Search

end Abacus.App.Machine
