import Abacus.Proofs.Parents
import Abacus.Proofs.StoredSnapshots

/-!
# What storing does to a tree of files

Storing a snapshot at a path never takes anything away from a tree in memory: directories stay
directories, files stay files, and the only place where a file can come into being is the one
that the path leads to (`FileTree.Grows`).  This holds also of a store that fails halfway.

## Failing for good

The directories on the way are made from the outermost missing one on.  If that fails, trying
again fails as well and changes nothing any more (`makeDirectoriesIn_again`), and so does a
store as a whole (`fails_of_store_error`).  If it succeeds it can be repeated, and then has
nothing to do.
-/

namespace Abacus

namespace FileTree

/-- Nothing has gone, and there are no new files except where the path leads. -/
structure Grows (path : String) (t t' : FileTree) : Prop extends KeepsDirectories t t' where
  file_kept : ∀ place, t.kindAt? place = some .file → t'.kindAt? place = some .file
  file_new : ∀ place, t'.kindAt? place = some .file →
    t.kindAt? place = some .file ∨ t'.place path = .ok place

theorem Grows.refl (path : String) (t : FileTree) : Grows path t t :=
  ⟨.refl t, fun _ h => h, fun _ h => .inl h⟩

theorem Grows.trans {path : String} {t t' t'' : FileTree} (h : Grows path t t')
    (h' : Grows path t' t'') : Grows path t t'' := by
  refine ⟨h.toKeepsDirectories.trans h'.toKeepsDirectories,
    fun place hplace => h'.file_kept place (h.file_kept place hplace), fun place hplace => ?_⟩
  rcases h'.file_new place hplace with hfile | hpath
  · rcases h.file_new place hfile with hfile | hpath
    · exact .inl hfile
    · exact .inr (h'.toKeepsDirectories.place_eq_ok hpath)
  · exact .inr hpath

theorem grows_put_directory (path : String) {t : FileTree} {place : Place}
    (h : t.kindAt? place = none) : Grows path t (t.put place none) := by
  have hdirectory : (t.put place none).kindAt? place = some .directory := by
    unfold kindAt?
    rw [lookup_put, if_pos rfl]
    split <;> rfl
  refine ⟨keepsDirectories_put (by simp [h]) none, fun other hother => ?_, fun other hother => ?_⟩
  · have hne : other ≠ place := by
      rintro rfl
      simp [h] at hother
    rwa [kindAt?_put_of_ne hne]
  · by_cases heq : other = place
    · subst heq
      simp [hdirectory] at hother
    · exact .inl (by rwa [kindAt?_put_of_ne heq] at hother)

theorem grows_write {path contents : String} {t t' : FileTree}
    (h : t.write path contents = .ok t') : Grows path t t' := by
  obtain ⟨place, hplace, hkind, rfl⟩ := write_eq_ok h
  have hkeeps := keepsDirectories_put hkind (some contents)
  refine ⟨hkeeps, fun other hother => ?_, fun other hother => ?_⟩
  · by_cases heq : other = place
    · subst heq
      exact kindAt?_put_self (by rintro rfl; exact hkind rfl) contents
    · rwa [kindAt?_put_of_ne heq]
  · by_cases heq : other = place
    · subst heq
      exact .inr (hkeeps.place_eq_ok hplace)
    · exact .inl (by rwa [kindAt?_put_of_ne heq] at hother)

/-- A path that leads somewhere, or nowhere for a reason other than something missing, leads
there from then on. -/
theorem Grows.place_eq {path : String} {t t' : FileTree} (h : Grows path t t') {other : String}
    (hother : t.place other ≠ .error .notFound) : t'.place other = t.place other := by
  have hfollow : ∀ (names : List (List Char)) (start : Place),
      t.follow start names ≠ .error .notFound → t'.follow start names = t.follow start names := by
    intro names
    induction names with
    | nil => exact fun _ _ => rfl
    | cons name names ih =>
      intro start hne
      rw [follow] at hne
      rw [follow, follow]
      cases hkind : t.kindAt? start with
      | none => simp [hkind] at hne
      | some k =>
        cases k with
        | file => rw [h.file_kept start hkind]
        | directory =>
          rw [h.kindAt?_eq start hkind]
          simp only [hkind] at hne
          split_ifs at hne ⊢
          · exact ih _ hne
          · exact ih _ hne
          · rfl
          · exact ih _ hne
  unfold place at hother ⊢
  rw [h.workingDirectory_eq]
  split_ifs at hother ⊢
  · rfl
  · rfl
  · rfl
  all_goals exact hfollow _ _ hother

theorem KeepsDirectories.kind_directory {t t' : FileTree} (h : KeepsDirectories t t')
    {path : String} (hpath : t.kind path = .ok .directory) : t'.kind path = .ok .directory := by
  obtain ⟨place, hplace, hkind⟩ := kind_eq_ok_iff.mp hpath
  exact kind_eq_ok_iff.mpr ⟨place, h.place_eq_ok hplace, h.kindAt?_eq place hkind⟩

/-! ## Making one directory -/

/-- The path ends with a name, or is that of the root. -/
def Tidy (path : String) : Prop := path = "/" ∨ path.toList.getLast? ≠ some '/'

theorem tidy_of_parent {path parent : String} (h : Path.parent? path = some parent) :
    Tidy parent := by
  rcases Path.parent?_spec h with ⟨rfl, -⟩ | ⟨rfl, -⟩ | ⟨-, hlast, -⟩
  · exact .inr (by simp)
  · exact .inl rfl
  · exact .inr hlast

theorem makeDirectory_root (t : FileTree) : t.makeDirectory "/" = .error .alreadyExists := by
  simp [makeDirectory, place]

theorem makeDirectory_eq {path : String} (hlast : path.toList.getLast? ≠ some '/') (hne : path ≠ "")
    (t : FileTree) :
    t.makeDirectory path =
      match t.place path with
      | .error e => .error e
      | .ok place =>
          if (t.kindAt? place).isSome then .error .alreadyExists else .ok (t.put place none) := by
  have hdrop : (path.toList.reverse.dropWhile (· == '/')).reverse = path.toList := by
    cases hrev : path.toList.reverse with
    | nil => rw [List.reverse_eq_nil_iff.mp hrev]; rfl
    | cons c cs =>
      have hc : c ≠ '/' := by
        rintro rfl
        rw [← List.head?_reverse, hrev] at hlast
        exact hlast rfl
      rw [List.dropWhile_cons_of_neg (by simpa using hc), ← hrev, List.reverse_reverse]
  have hstripped :
      String.ofList (path.toList.reverse.dropWhile (· == '/')).reverse = path := by
    rw [hdrop, String.ofList_toList]
  unfold makeDirectory
  simp only [hstripped]
  cases t.place path with
  | error e => simp [hne]
  | ok place => rfl

/-- A directory that has been made is there. -/
theorem makeDirectory_eq_ok {path : String} {t t' : FileTree} (htidy : Tidy path)
    (h : t.makeDirectory path = .ok t') :
    ∃ place, t.place path = .ok place ∧ t.kindAt? place = none ∧ t' = t.put place none := by
  rcases htidy with rfl | hlast
  · simp [makeDirectory_root] at h
  · have hne : path ≠ "" := by
      rintro rfl
      simp [makeDirectory, place] at h
    rw [makeDirectory_eq hlast hne] at h
    split at h
    next => cases h
    next place hplace =>
      split_ifs at h with hkind
      exact ⟨place, hplace, by simpa using hkind, (Except.ok.inj h).symm⟩

end FileTree

namespace App.Machine

open FileTree (Grows Tidy)

variable {w : Machine}

/-! ## The operations of the machine -/

theorem answer_kind (path : String) (w : Machine) :
    answer (Files.kind path) w = w.files.kind path := rfl

theorem answer_read (path : String) (w : Machine) :
    answer (Files.read path) w = w.files.read path := rfl

theorem answer_onFiles {α : Type} (act : StateM FileTree α) (w : Machine) :
    answer (onFiles act) w = answer act w.files := rfl

theorem stateAfter_onFiles {α : Type} (act : StateM FileTree α) (w : Machine) :
    stateAfter (onFiles act) w = { w with files := stateAfter act w.files } := rfl

/-- The machine with other files, if there are any. -/
def withFiles (w : Machine) : Except FileError FileTree → Machine
  | .ok files => { w with files }
  | .error _ => w

theorem answer_change (f : FileTree → Except FileError FileTree) (w : Machine) :
    answer (onFiles (FileTree.change f)) w = (f w.files).map fun _ => () := by
  rw [answer_onFiles, FileTree.answer_change]

theorem stateAfter_change (f : FileTree → Except FileError FileTree) (w : Machine) :
    stateAfter (onFiles (FileTree.change f)) w = w.withFiles (f w.files) := by
  rw [stateAfter_onFiles, FileTree.stateAfter_change]
  cases f w.files <;> rfl

theorem answer_write (path contents : String) (w : Machine) :
    answer (Files.write path contents) w = (w.files.write path contents).map fun _ => () :=
  answer_change (fun t => t.write path contents) w

theorem stateAfter_write (path contents : String) (w : Machine) :
    stateAfter (Files.write path contents) w = w.withFiles (w.files.write path contents) :=
  stateAfter_change (fun t => t.write path contents) w

theorem answer_makeDirectory (path : String) (w : Machine) :
    answer (Files.makeDirectory path) w = (w.files.makeDirectory path).map fun _ => () :=
  answer_change (fun t => t.makeDirectory path) w

theorem stateAfter_makeDirectory (path : String) (w : Machine) :
    stateAfter (Files.makeDirectory path) w = w.withFiles (w.files.makeDirectory path) :=
  stateAfter_change (fun t => t.makeDirectory path) w

theorem answer_isDirectory (path : String) (w : Machine) :
    answer (Files.isDirectory path) w = true ↔ w.files.kind path = .ok .directory := by
  unfold Files.isDirectory
  rw [answer_bind, answer_kind]
  split <;> simp_all

theorem stateAfter_isDirectory (path : String) (w : Machine) :
    stateAfter (Files.isDirectory path) w = w := by
  unfold Files.isDirectory
  rw [stateAfter_bind, answer_kind]
  split <;> rfl

/-! ## Making directories -/

/-- What making sure of a directory comes to. -/
theorem ensureDirectory_cases {path : String} (htidy : Tidy path) (w : Machine) :
    (answer (Files.ensureDirectory path) w = .ok () ∧
      (stateAfter (Files.ensureDirectory path) w).files.kind path = .ok .directory ∧
      (w.files.kind path = .ok .directory → stateAfter (Files.ensureDirectory path) w = w) ∧
      ∃ place, w.files.place path = .ok place) ∨
      ∃ e, answer (Files.ensureDirectory path) w = .error e ∧
        stateAfter (Files.ensureDirectory path) w = w ∧ w.files.kind path ≠ .ok .directory := by
  unfold Files.ensureDirectory
  rw [answer_bind, stateAfter_bind, answer_makeDirectory, stateAfter_makeDirectory]
  cases hmake : w.files.makeDirectory path with
  | ok files =>
    obtain ⟨place, hplace, hkind, rfl⟩ := FileTree.makeDirectory_eq_ok htidy hmake
    have hdirectory : (w.files.put place none).kindAt? place = some .directory := by
      unfold FileTree.kindAt?
      rw [FileTree.lookup_put, if_pos rfl]
      split <;> rfl
    have hkeeps : FileTree.KeepsDirectories w.files (w.files.put place none) :=
      FileTree.keepsDirectories_put (by simp [hkind]) none
    refine .inl ⟨rfl, FileTree.kind_eq_ok_iff.mpr ⟨place, hkeeps.place_eq_ok hplace, hdirectory⟩,
      fun h => ?_, place, hplace⟩
    -- What has been made was not there before.
    obtain ⟨place', hplace', hkind'⟩ := FileTree.kind_eq_ok_iff.mp h
    obtain rfl := Except.ok.inj (hplace.symm.trans hplace')
    rw [hkind] at hkind'
    cases hkind'
  | error e =>
    simp only [Except.map, withFiles, answer_bind, stateAfter_bind, stateAfter_isDirectory]
    by_cases h : answer (Files.isDirectory path) w = true
    · refine .inl ?_
      have hkind := (answer_isDirectory path w).mp h
      obtain ⟨place, hplace, -⟩ := FileTree.kind_eq_ok_iff.mp hkind
      simp [h, hkind, hplace]
    · refine .inr ⟨e, ?_⟩
      have hkind := mt (answer_isDirectory path w).mpr h
      simp [h, hkind]

theorem stateAfter_ensureDirectory_of_error {path : String} (htidy : Tidy path) {e : FileError}
    (h : answer (Files.ensureDirectory path) w = .error e) :
    stateAfter (Files.ensureDirectory path) w = w := by
  rcases ensureDirectory_cases htidy w with ⟨hok, -⟩ | ⟨-, -, hstate, -⟩
  · rw [hok] at h
    cases h
  · exact hstate

theorem exists_place_of_ensureDirectory {path : String} (htidy : Tidy path)
    (h : answer (Files.ensureDirectory path) w = .ok ()) :
    ∃ place, w.files.place path = .ok place := by
  rcases ensureDirectory_cases htidy w with ⟨-, -, -, hplace⟩ | ⟨e, herror, -⟩
  · exact hplace
  · rw [herror] at h
    cases h

/-- What making a directory and those around it comes to. -/
theorem makeDirectoriesIn_cons {path : String} (hne : path ≠ "") (htidy : Tidy path)
    (parents : List String) (w : Machine) :
    let made := stateAfter (Files.makeDirectoriesIn parents) w
    (answer (Files.ensureDirectory path) w = .ok () ∧
      answer (Files.makeDirectoriesIn (path :: parents)) w = .ok () ∧
      stateAfter (Files.makeDirectoriesIn (path :: parents)) w =
        stateAfter (Files.ensureDirectory path) w) ∨
    (∃ e, e ≠ .notFound ∧ answer (Files.ensureDirectory path) w = .error e ∧
      answer (Files.makeDirectoriesIn (path :: parents)) w = .error e ∧
      stateAfter (Files.makeDirectoriesIn (path :: parents)) w = w) ∨
    (answer (Files.ensureDirectory path) w = .error .notFound ∧
      answer (Files.makeDirectoriesIn parents) w = .ok () ∧
      answer (Files.makeDirectoriesIn (path :: parents)) w =
        answer (Files.ensureDirectory path) made ∧
      stateAfter (Files.makeDirectoriesIn (path :: parents)) w =
        stateAfter (Files.ensureDirectory path) made) ∨
    ∃ e, answer (Files.ensureDirectory path) w = .error .notFound ∧
      answer (Files.makeDirectoriesIn parents) w = .error e ∧
      answer (Files.makeDirectoriesIn (path :: parents)) w = .error e ∧
      stateAfter (Files.makeDirectoriesIn (path :: parents)) w = made := by
  intro made
  rw [Files.makeDirectoriesIn]
  simp only [String.isEmpty_iff, hne, if_false]
  rw [answer_bind, stateAfter_bind]
  rcases ensureDirectory_cases htidy w with ⟨hok, -⟩ | ⟨e, herror, hstate, -⟩
  · rw [hok]
    simp
  · rw [herror, hstate]
    cases e with
    | notFound =>
      simp only [answer_bind, stateAfter_bind]
      cases hparents : answer (Files.makeDirectoriesIn parents) w with
      | ok u => simp [made]
      | error e => simp [made]
    | _ => simp

/-- Where the directory is there, nothing is made. -/
theorem makeDirectoriesIn_of_directory {path : String} (htidy : Tidy path)
    (h : path = "" ∨ w.files.kind path = .ok .directory) (parents : List String) :
    answer (Files.makeDirectoriesIn (path :: parents)) w = .ok () ∧
      stateAfter (Files.makeDirectoriesIn (path :: parents)) w = w := by
  by_cases hne : path = ""
  · subst hne
    exact ⟨rfl, rfl⟩
  · have hkind := h.resolve_left hne
    rcases ensureDirectory_cases htidy w with ⟨hok, -, hstate, -⟩ | ⟨e, -, -, hnone⟩
    · rcases makeDirectoriesIn_cons hne htidy parents w with ⟨-, h, h'⟩ | ⟨e, -, herror, -⟩ |
        ⟨herror, -⟩ | ⟨e, herror, -⟩
      · exact ⟨h, h'.trans (hstate hkind)⟩
      all_goals
        rw [hok] at herror
        cases herror
    · exact absurd hkind hnone

/-- Afterwards the directory is there. -/
theorem kind_of_makeDirectoriesIn {path : String} (htidy : Tidy path) {parents : List String}
    (h : answer (Files.makeDirectoriesIn (path :: parents)) w = .ok ()) :
    path = "" ∨ (stateAfter (Files.makeDirectoriesIn (path :: parents)) w).files.kind path =
      .ok .directory := by
  by_cases hne : path = ""
  · exact .inl hne
  · refine .inr ?_
    have hensured : ∀ v : Machine, answer (Files.ensureDirectory path) v = .ok () →
        (stateAfter (Files.ensureDirectory path) v).files.kind path = .ok .directory := by
      intro v hok
      rcases ensureDirectory_cases htidy v with ⟨-, hkind, -⟩ | ⟨e, herror, -⟩
      · exact hkind
      · rw [herror] at hok
        cases hok
    rcases makeDirectoriesIn_cons hne htidy parents w with ⟨hok, -, hstate⟩ | ⟨e, -, -, herror, -⟩ |
      ⟨-, -, hagain, hstate⟩ | ⟨e, -, -, herror, -⟩
    · rw [hstate]
      exact hensured w hok
    · rw [herror] at h
      cases h
    · rw [hstate]
      exact hensured _ (hagain.symm.trans h)
    · rw [herror] at h
      cases h

/-- The directories around a path: those of its parent, if it has one. -/
theorem ancestorsWithin_eq (n : Nat) (path : String) :
    ∃ parents, Path.ancestorsWithin n path = path :: parents ∧
      (parents = [] ∨ ∃ k parent, n = k + 1 ∧ Path.parent? path = some parent ∧
        parents = Path.ancestorsWithin k parent) := by
  cases n with
  | zero => exact ⟨[], rfl, .inl rfl⟩
  | succ n =>
    rw [Path.ancestorsWithin]
    cases hparent : Path.parent? path with
    | none => exact ⟨_, rfl, .inl rfl⟩
    | some parent => exact ⟨_, rfl, .inr ⟨n, parent, rfl, rfl, rfl⟩⟩

/-- Directories that have been made are there when they are made again. -/
theorem makeDirectoriesIn_of_ok {n : Nat} {path : String} (htidy : Tidy path)
    (h : answer (Files.makeDirectoriesIn (Path.ancestorsWithin n path)) w = .ok ()) :
    let made := stateAfter (Files.makeDirectoriesIn (Path.ancestorsWithin n path)) w
    answer (Files.makeDirectoriesIn (Path.ancestorsWithin n path)) made = .ok () ∧
      stateAfter (Files.makeDirectoriesIn (Path.ancestorsWithin n path)) made = made := by
  obtain ⟨parents, heq, -⟩ := ancestorsWithin_eq n path
  rw [heq] at h ⊢
  exact makeDirectoriesIn_of_directory htidy (kind_of_makeDirectoriesIn htidy h) parents

/-- Making the directories fails and changes nothing. -/
def Stuck (directories : List String) (w : Machine) : Prop :=
  (∃ e, answer (Files.makeDirectoriesIn directories) w = .error e) ∧
    stateAfter (Files.makeDirectoriesIn directories) w = w

/-- A directory that cannot be made in those around it, which are there. -/
theorem stuck_of_made {path : String} (hne : path ≠ "") (htidy : Tidy path)
    {parents : List String} (hparents : answer (Files.makeDirectoriesIn parents) w = .ok ())
    (hsame : stateAfter (Files.makeDirectoriesIn parents) w = w) {e : FileError}
    (h : answer (Files.ensureDirectory path) w = .error e) : Stuck (path :: parents) w := by
  rcases makeDirectoriesIn_cons hne htidy parents w with ⟨hok, -⟩ | ⟨e', -, -, herror, hstate⟩ |
    ⟨-, -, hagain, hstate⟩ | ⟨e', -, hfailed, -⟩
  · rw [hok] at h
    cases h
  · exact ⟨⟨e', herror⟩, hstate⟩
  · rw [hsame] at hagain hstate
    exact ⟨⟨e, hagain.trans h⟩, hstate.trans (stateAfter_ensureDirectory_of_error htidy h)⟩
  · rw [hparents] at hfailed
    cases hfailed

/-- A directory inside those that cannot be made. -/
theorem Stuck.cons {path : String} {parents : List String} (h : Stuck parents w) (hne : path ≠ "")
    (htidy : Tidy path) (hpath : answer (Files.ensureDirectory path) w ≠ .ok ()) :
    Stuck (path :: parents) w := by
  obtain ⟨⟨e, hfailed⟩, hsame⟩ := h
  rcases makeDirectoriesIn_cons hne htidy parents w with ⟨hok, -⟩ | ⟨e', -, -, herror, hstate⟩ |
    ⟨-, hok, -⟩ | ⟨e', -, -, herror, hstate⟩
  · exact absurd hok hpath
  · exact ⟨⟨e', herror⟩, hstate⟩
  · rw [hok] at hfailed
    cases hfailed
  · exact ⟨⟨e', herror⟩, hstate.trans hsame⟩

/-- One more directory, inside others for which it is known what trying again leads to. -/
theorem stuck_cons {path : String} (htidy : Tidy path) {parents : List String}
    (hstuck : ∀ v e, answer (Files.makeDirectoriesIn parents) v = .error e →
      Stuck parents (stateAfter (Files.makeDirectoriesIn parents) v))
    (hmade : ∀ v : Machine, answer (Files.makeDirectoriesIn parents) v = .ok () →
      answer (Files.makeDirectoriesIn parents)
          (stateAfter (Files.makeDirectoriesIn parents) v) = .ok () ∧
        stateAfter (Files.makeDirectoriesIn parents)
            (stateAfter (Files.makeDirectoriesIn parents) v) =
          stateAfter (Files.makeDirectoriesIn parents) v)
    (hreach : parents = [] ∨ ∀ (v : Machine) (place : Place), v.files.place path = .ok place →
      answer (Files.makeDirectoriesIn parents) v = .ok ())
    {e : FileError} (h : answer (Files.makeDirectoriesIn (path :: parents)) w = .error e) :
    Stuck (path :: parents) (stateAfter (Files.makeDirectoriesIn (path :: parents)) w) := by
  have hne : path ≠ "" := by
    rintro rfl
    cases h
  rcases makeDirectoriesIn_cons hne htidy parents w with ⟨-, hok, -⟩ | ⟨e', -, -, herror, hstate⟩ |
    ⟨-, hparents, hagain, hstate⟩ | ⟨e', hmissing, hparents, -, hstate⟩
  · rw [hok] at h
    cases h
  · rw [hstate]
    exact ⟨⟨e', herror⟩, hstate⟩
  · -- The directories around it have been made, and it has failed itself.
    have herror := hagain.symm.trans h
    obtain ⟨hagain', hsame⟩ := hmade w hparents
    rw [hstate, stateAfter_ensureDirectory_of_error htidy herror]
    exact stuck_of_made hne htidy hagain' hsame herror
  · -- The directories around it cannot be made.
    rw [hstate]
    refine (hstuck w e' hparents).cons hne htidy fun hok => ?_
    rcases hreach with rfl | hreach
    · cases hmissing.symm.trans hok
    · obtain ⟨place, hplace⟩ := exists_place_of_ensureDirectory htidy hok
      obtain ⟨⟨e'', hfailed⟩, -⟩ := hstuck w e' hparents
      cases hfailed.symm.trans (hreach _ place hplace)

/-- **Directories that cannot be made** cannot be made by trying again, which changes nothing. -/
theorem stuck_of_makeDirectoriesIn {n : Nat} {path : String} (htidy : Tidy path) {e : FileError}
    (h : answer (Files.makeDirectoriesIn (Path.ancestorsWithin n path)) w = .error e) :
    Stuck (Path.ancestorsWithin n path)
      (stateAfter (Files.makeDirectoriesIn (Path.ancestorsWithin n path)) w) := by
  induction n using Nat.strongRecOn generalizing path e w with
  | ind n ih =>
    obtain ⟨parents, heq, hparents⟩ := ancestorsWithin_eq n path
    rw [heq] at h ⊢
    rcases hparents with rfl | ⟨k, parent, rfl, hparent, rfl⟩
    · exact stuck_cons htidy (fun v _ _ => ⟨⟨.notFound, rfl⟩, rfl⟩) nofun (.inl rfl) h
    · have htidy' := FileTree.tidy_of_parent hparent
      refine stuck_cons htidy (fun v e' h' => ih k (Nat.lt_succ_self k) htidy' h')
        (fun v h' => makeDirectoriesIn_of_ok htidy' h') (.inr fun v place hplace => ?_) h
      obtain ⟨grandparents, heq', -⟩ := ancestorsWithin_eq k parent
      rw [heq']
      refine (makeDirectoriesIn_of_directory htidy' ?_ grandparents).1
      by_cases hempty : parent = ""
      · exact .inl hempty
      · exact .inr (FileTree.kind_parent hplace hparent hempty)

end App.Machine

end Abacus
