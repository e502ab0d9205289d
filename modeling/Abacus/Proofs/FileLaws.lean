import Mathlib.Tactic.SplitIfs
import Abacus.App.Machine

/-!
# Files that keep what is written

The program is written against operations on files, and what it does with them is a function
of the state of whatever has these operations.  This module separates the two things such an
operation gives, its answer and the state that it leaves, and says the little about files that
storing a snapshot relies on: looking changes nothing, and what has been written is there to
be read (`LawfulFiles`).

Which operations succeed is left open.  A directory may be read-only and a disk may be full, so
a law that promised success would be wrong for the files of a real machine.

## The tree in memory is lawful

A path leads to the same place before and after something is put there, because all places on
the way are directories and the one at the end was none (`FileTree.follow_put`).
-/

namespace Abacus

section Effects

variable {σ α β : Type}

/-- What a computation answers in a state. -/
def answer (x : StateM σ α) (w : σ) : α := (x.run w).1

/-- The state that a computation leaves. -/
def stateAfter (x : StateM σ α) (w : σ) : σ := (x.run w).2

@[simp] theorem answer_pure (a : α) (w : σ) : answer (pure a) w = a := rfl

@[simp] theorem stateAfter_pure (a : α) (w : σ) : stateAfter (pure a : StateM σ α) w = w := rfl

@[simp] theorem answer_bind (x : StateM σ α) (f : α → StateM σ β) (w : σ) :
    answer (x >>= f) w = answer (f (answer x w)) (stateAfter x w) := rfl

@[simp] theorem stateAfter_bind (x : StateM σ α) (f : α → StateM σ β) (w : σ) :
    stateAfter (x >>= f) w = stateAfter (f (answer x w)) (stateAfter x w) := rfl

@[simp] theorem answer_map (f : α → β) (x : StateM σ α) (w : σ) :
    answer (f <$> x) w = f (answer x w) := rfl

@[simp] theorem stateAfter_map (f : α → β) (x : StateM σ α) (w : σ) :
    stateAfter (f <$> x) w = stateAfter x w := rfl

@[simp] theorem answer_get (w : σ) : answer (get : StateM σ σ) w = w := rfl

@[simp] theorem stateAfter_get (w : σ) : stateAfter (get : StateM σ σ) w = w := rfl

end Effects

/-- Looking at a path changes nothing, and a file that has been written there is there and holds
what was written.  Nothing is asked of other paths. -/
class LawfulFiles (σ : Type) [Files (StateM σ)] (path : String) : Prop where
  stateAfter_kind : ∀ w : σ, stateAfter (Files.kind path) w = w
  stateAfter_read : ∀ w : σ, stateAfter (Files.read path) w = w
  kind_write : ∀ (contents : String) (w : σ),
    answer (Files.write path contents) w = .ok () →
      ∃ k, answer (Files.kind path) (stateAfter (Files.write path contents) w) = .ok k
  read_write : ∀ (contents : String) (w : σ),
    answer (Files.write path contents) w = .ok () →
      answer (Files.read path) (stateAfter (Files.write path contents) w) = .ok contents

namespace LawfulFiles

attribute [simp] stateAfter_kind stateAfter_read

variable {σ : Type} [Files (StateM σ)]

/-- Whether something stands at a path is found out by looking. -/
@[simp] theorem stateAfter_isPresent (path : String) [LawfulFiles σ path] (w : σ) :
    stateAfter (Files.isPresent path) w = w := by
  unfold Files.isPresent
  rw [stateAfter_bind, stateAfter_kind]
  split <;> rfl

theorem answer_isPresent (path : String) (w : σ) :
    answer (Files.isPresent path) w = (answer (Files.kind path) w).isOk := by
  unfold Files.isPresent
  rw [answer_bind]
  cases answer (Files.kind path) w <;> rfl

end LawfulFiles

/-! ## Trees of files -/

namespace FileTree

theorem lookup_put (t : FileTree) (place other : Place) (node : Option String) :
    (t.put place node).nodes.lookup other =
      if other = place then some node else t.nodes.lookup other := by
  unfold put
  rw [List.lookup_cons]
  by_cases h : other = place
  · simp [h]
  · rw [beq_false_of_ne h, if_neg h]
    -- The entries that were filtered out are those of another place.
    show (t.nodes.filter _).lookup other = _
    induction t.nodes with
    | nil => rfl
    | cons n nodes ih =>
      obtain ⟨key, value⟩ := n
      rw [List.filter_cons, List.lookup_cons]
      split
      next =>
        rw [List.lookup_cons, ih]
      next hkey =>
        obtain rfl : key = place := by simpa using hkey
        rw [ih, beq_false_of_ne h]

theorem kindAt?_put_self {t : FileTree} {place : Place} (h : place ≠ []) (contents : String) :
    (t.put place (some contents)).kindAt? place = some .file := by
  simp [kindAt?, h, lookup_put]

theorem kindAt?_put_of_ne {t : FileTree} {place other : Place} (h : other ≠ place)
    (node : Option String) : (t.put place node).kindAt? other = t.kindAt? other := by
  simp [kindAt?, h, lookup_put]

theorem contentsAt?_put_self (t : FileTree) (place : Place) (node : Option String) :
    (t.put place node).contentsAt? place = node := by
  simp [contentsAt?, lookup_put]

/-- Relative paths start in the same place, and what was a directory is one. -/
structure KeepsDirectories (t t' : FileTree) : Prop where
  workingDirectory_eq : t'.workingDirectory = t.workingDirectory
  kindAt?_eq : ∀ place, t.kindAt? place = some .directory → t'.kindAt? place = some .directory

theorem KeepsDirectories.refl (t : FileTree) : KeepsDirectories t t := ⟨rfl, fun _ h => h⟩

theorem KeepsDirectories.trans {t t' t'' : FileTree} (h : KeepsDirectories t t')
    (h' : KeepsDirectories t' t'') : KeepsDirectories t t'' :=
  ⟨h'.workingDirectory_eq.trans h.workingDirectory_eq,
    fun place hplace => h'.kindAt?_eq place (h.kindAt?_eq place hplace)⟩

theorem keepsDirectories_put {t : FileTree} {place : Place}
    (h : t.kindAt? place ≠ some .directory) (node : Option String) :
    KeepsDirectories t (t.put place node) := by
  refine ⟨rfl, fun other hother => ?_⟩
  have hne : other ≠ place := by
    rintro rfl
    exact h hother
  rw [kindAt?_put_of_ne hne, hother]

/-- Only directories are passed on the way to a place. -/
theorem KeepsDirectories.follow_eq_ok {t t' : FileTree} (hkeeps : KeepsDirectories t t')
    {names : List (List Char)} {start place : Place} (h : t.follow start names = .ok place) :
    t'.follow start names = .ok place := by
  induction names generalizing start with
  | nil => exact h
  | cons name names ih =>
    rw [follow] at h ⊢
    cases hkind : t.kindAt? start with
    | none => simp [hkind] at h
    | some k =>
      cases k with
      | file => simp [hkind] at h
      | directory =>
        simp only [hkind, hkeeps.kindAt?_eq start hkind] at h ⊢
        split_ifs at h ⊢
        · exact ih h
        · exact ih h
        · exact ih h

theorem KeepsDirectories.place_eq_ok {t t' : FileTree} (hkeeps : KeepsDirectories t t')
    {path : String} {place : Place} (h : t.place path = .ok place) :
    t'.place path = .ok place := by
  unfold FileTree.place at h ⊢
  rw [hkeeps.workingDirectory_eq]
  split_ifs at h ⊢
  all_goals exact hkeeps.follow_eq_ok h

/-! ### Reading what has been written -/

theorem write_eq_ok {t t' : FileTree} {path contents : String}
    (h : t.write path contents = .ok t') :
    ∃ place, t.place path = .ok place ∧ t.kindAt? place ≠ some .directory ∧
      t' = t.put place (some contents) := by
  unfold write at h
  cases hplace : t.place path with
  | error e => simp [hplace] at h
  | ok place =>
    simp only [hplace] at h
    split at h
    next => cases h
    next hkind => exact ⟨place, rfl, hkind, (Except.ok.inj h).symm⟩

/-- After a file has been written its path leads to the place where it stands. -/
theorem place_of_write {t t' : FileTree} {path contents : String}
    (h : t.write path contents = .ok t') :
    ∃ place, t'.place path = .ok place ∧ t'.kindAt? place = some .file ∧
      t'.contentsAt? place = some contents := by
  obtain ⟨place, hplace, hkind, rfl⟩ := write_eq_ok h
  refine ⟨place, (keepsDirectories_put hkind _).place_eq_ok hplace, kindAt?_put_self ?_ _,
    contentsAt?_put_self t place _⟩
  rintro rfl
  exact hkind rfl

theorem kind_of_write {t t' : FileTree} {path contents : String}
    (h : t.write path contents = .ok t') : t'.kind path = .ok .file := by
  obtain ⟨place, hplace, hkind, -⟩ := place_of_write h
  simp [kind, hplace, hkind]

theorem read_of_write {t t' : FileTree} {path contents : String}
    (h : t.write path contents = .ok t') : t'.read path = .ok contents := by
  obtain ⟨place, hplace, hkind, hcontents⟩ := place_of_write h
  simp [read, hplace, hkind, hcontents]

/-! ### The operations -/

theorem answer_change (f : FileTree → Except FileError FileTree) (t : FileTree) :
    answer (change f) t = (f t).map fun _ => () := by
  unfold change
  rw [answer_bind, answer_get, stateAfter_get]
  cases f t <;> rfl

theorem stateAfter_change (f : FileTree → Except FileError FileTree) (t : FileTree) :
    stateAfter (change f) t = (f t).toOption.getD t := by
  unfold change
  rw [stateAfter_bind, answer_get, stateAfter_get]
  cases f t <;> rfl

/-- An operation that succeeds leaves the changed tree. -/
theorem stateAfter_change_of_ok {f : FileTree → Except FileError FileTree} {t : FileTree}
    (h : answer (change f) t = .ok ()) : f t = .ok (stateAfter (change f) t) := by
  rw [answer_change] at h
  rw [stateAfter_change]
  cases hf : f t with
  | error e => simp [hf, Except.map] at h
  | ok t' => rfl

instance (path : String) : LawfulFiles FileTree path where
  stateAfter_kind _ := rfl
  stateAfter_read _ := rfl
  kind_write _ _ h := ⟨.file, kind_of_write (stateAfter_change_of_ok h)⟩
  read_write _ _ h := read_of_write (stateAfter_change_of_ok h)

end FileTree

/-- The files of a machine are those of its tree. -/
instance (path : String) : LawfulFiles App.Machine path where
  stateAfter_kind _ := rfl
  stateAfter_read _ := rfl
  kind_write contents w := (inferInstance : LawfulFiles FileTree path).kind_write contents w.files
  read_write contents w := (inferInstance : LawfulFiles FileTree path).read_write contents w.files

end Abacus
