import Abacus.Proofs.Parents

/-!
# The names on a path

Two texts can be the same path: empty components and components `.` say nothing.  What counts
are the names that are left (`Path.names`).  A path without `..` leads, if it leads anywhere, to
the place with these names (`FileTree.place_eq_names`), so two such paths that lead to the same
place are the same path (`FileTree.same_of_place_eq`).  With `..` this fails, since `a/../b` and
`b` lead to the same place, but only the first has a name `a`.
-/

namespace Abacus

namespace Path

theorem ne_empty_of_isAbsolute {p : String} (h : isAbsolute p = true) : p ≠ "" := by
  rintro rfl
  exact absurd h (by decide)

theorem isAbsolute_append {p : String} (hne : p ≠ "") (more : String) :
    isAbsolute (p ++ more) = isAbsolute p := by
  unfold isAbsolute
  rw [String.toList_append]
  cases hp : p.toList with
  | nil => exact absurd (String.toList_eq_nil_iff.mp hp) hne
  | cons c cs => rfl

theorem join_empty {child : String} (h : isAbsolute child = false) : join "" child = child := by
  have hempty : ("" : String).isEmpty = true := rfl
  simp [join, h, hempty]

/-- The text of a joined path is that of its base, a slash and the child.  The base may bring the
slash with it. -/
theorem toList_join {base child : String} (hbase : base ≠ "") (hchild : isAbsolute child = false) :
    ∃ front, (join base child).toList = front ++ '/' :: child.toList ∧
      (base.toList = front ∨ base.toList = front ++ ['/']) := by
  unfold join
  simp only [hchild, Bool.false_or, String.isEmpty_iff, hbase, if_false]
  split
  next hslash =>
    obtain ⟨cs, hcs⟩ := List.getLast?_eq_some_iff.mp (by simpa using hslash)
    refine ⟨cs, ?_, .inr hcs⟩
    rw [String.toList_append, hcs, List.append_assoc, List.singleton_append]
  next =>
    refine ⟨base.toList, ?_, .inl rfl⟩
    rw [String.append_assoc, String.toList_append, String.toList_append]
    rfl

/-- A joined path is its base, continued by the child.  At the end of the base there may be a slash
already, behind which there is an empty component. -/
theorem split_join {base child : String} (hbase : base ≠ "") (hchild : isAbsolute child = false) :
    isAbsolute (join base child) = isAbsolute base ∧ join base child ≠ "" ∧
      ∃ front, split (join base child).toList = front ++ split child.toList ∧
        (split base.toList = front ∨ split base.toList = front ++ [[]]) := by
  obtain ⟨front, hjoin, hfront⟩ := toList_join hbase hchild
  refine ⟨?_, fun hempty => ?_, split front, by rw [hjoin, split_append], ?_⟩
  · unfold isAbsolute
    rcases hfront with h | h
    · obtain ⟨c, cs, hcs⟩ := List.exists_cons_of_ne_nil (mt String.toList_eq_nil_iff.mp hbase)
      rw [hjoin, ← h, hcs]
      rfl
    · rw [hjoin, h, List.head?_append, List.head?_append]
      rfl
  · rw [hempty] at hjoin
    exact List.append_ne_nil_of_right_ne_nil _ (List.cons_ne_nil _ _) hjoin.symm
  · rcases hfront with h | h
    · exact .inl (congrArg split h)
    · exact .inr (by rw [h, split_append]; rfl)

/-- The component says something. -/
def IsName (component : List Char) : Prop := ¬ (component = [] ∨ component = ['.'])

instance : DecidablePred IsName := fun _ => inferInstanceAs (Decidable (¬ _))

/-- The components of a path that say something. -/
def names (p : String) : List (List Char) :=
  (split p.toList).filter fun component => IsName component

theorem names_join (base : String) {child : String} (hchild : isAbsolute child = false) :
    names (join base child) = names base ++ names child := by
  by_cases hbase : base = ""
  · rw [hbase, join_empty hchild]
    rfl
  obtain ⟨-, -, front, hjoin, hfront⟩ := split_join hbase hchild
  unfold names
  rw [hjoin, List.filter_append]
  rcases hfront with hfront | hfront
  · rw [hfront]
  · rw [hfront, List.filter_append]
    simp [IsName]

/-- An absolute path that does not go upwards. -/
structure Forward (p : String) : Prop where
  isAbsolute : Path.isAbsolute p = true
  not_mem : ['.', '.'] ∉ names p

instance (p : String) : Decidable (Forward p) :=
  decidable_of_iff (Path.isAbsolute p = true ∧ ['.', '.'] ∉ names p)
    ⟨fun h => ⟨h.1, h.2⟩, fun h => ⟨h.isAbsolute, h.not_mem⟩⟩

theorem Forward.join {base child : String} (h : Forward base)
    (hchild : Path.isAbsolute child = false) (hup : ['.', '.'] ∉ names child) : Forward (Path.join base child) := by
  have hne := ne_empty_of_isAbsolute h.isAbsolute
  refine ⟨(split_join hne hchild).1.trans h.isAbsolute, ?_⟩
  rw [names_join base hchild, List.mem_append]
  exact not_or.mpr ⟨h.not_mem, hup⟩

theorem Forward.parent {p parent : String} (h : Forward p) (hparent : parent? p = some parent) :
    Forward parent := by
  rcases parent?_spec hparent with ⟨-, hrelative⟩ | ⟨rfl, -⟩ | ⟨hne, -, cs, hcs⟩
  · exact absurd h.isAbsolute (by simp [hrelative])
  · decide
  · have hp : p = parent ++ String.ofList ('/' :: cs) :=
      String.toList_inj.mp (by rw [hcs, String.toList_append, String.toList_ofList])
    refine ⟨by rw [← isAbsolute_append hne, ← hp, h.isAbsolute], fun hmem => h.not_mem ?_⟩
    unfold names at hmem ⊢
    rw [hcs, split_append, List.filter_append]
    exact List.mem_append_left _ hmem

theorem Forward.of_mem_ancestorsWithin {n : Nat} {p ancestor : String} (h : Forward p)
    (hmem : ancestor ∈ ancestorsWithin n p) : Forward ancestor := by
  induction n generalizing p with
  | zero =>
    obtain rfl := List.mem_singleton.mp hmem
    exact h
  | succ n ih =>
    rw [ancestorsWithin] at hmem
    rcases List.mem_cons.mp hmem with rfl | hmem
    · exact h
    · cases hparent : parent? p with
      | none => simp [hparent] at hmem
      | some parent =>
        rw [hparent] at hmem
        exact ih (h.parent hparent) hmem

/-- Two texts are the same absolute path. -/
structure Same (p q : String) : Prop where
  isAbsolute_left : isAbsolute p = true
  isAbsolute_right : isAbsolute q = true
  names_eq : names p = names q

end Path

namespace FileTree

open Abacus.Path (names IsName Forward Same)

variable {t : FileTree}

/-- Going forward, each name leads one step further. -/
theorem follow_eq_names {start place : Place} {components : List (List Char)}
    (hup : ['.', '.'] ∉ components.filter fun c => IsName c)
    (h : t.follow start components = .ok place) :
    place = start ++ (components.filter fun c => IsName c).map String.ofList := by
  induction components generalizing start with
  | nil =>
    obtain rfl := Except.ok.inj h
    simp
  | cons component components ih =>
    rw [follow, kindAt?_of_follow_cons h] at h
    by_cases hname : IsName component
    · rw [List.filter_cons_of_pos (by simpa using hname)] at hup ⊢
      obtain ⟨hne, hup⟩ := not_or.mp (mt List.mem_cons.mpr hup)
      unfold IsName at hname
      simp only [hname, Ne.symm hne, if_false] at h
      split at h
      next => cases h
      next => rw [ih hup h, List.map_cons, List.append_assoc, List.singleton_append]
    · rw [List.filter_cons_of_neg (by simpa using hname)] at hup ⊢
      simp only [Decidable.not_not.mp hname, if_true] at h
      exact ih hup h

/-- A path that goes forward leads to the place with its names. -/
theorem place_eq_names {path : String} {place : Place} (hpath : Forward path)
    (h : t.place path = .ok place) : place = (names path).map String.ofList := by
  obtain ⟨-, -, -, hfollow⟩ := place_eq_ok_iff.mp h
  rw [if_pos hpath.isAbsolute] at hfollow
  exact (follow_eq_names hpath.not_mem hfollow).trans (List.nil_append _)

/-- **Two paths that go forward to the same place are the same path.** -/
theorem same_of_place_eq {p q : String} {place : Place} (hp : Forward p) (hq : Forward q)
    (hplace : t.place p = .ok place) (heq : t.place q = t.place p) : Same q p := by
  refine ⟨hq.isAbsolute, hp.isAbsolute, ?_⟩
  have hnames := (place_eq_names hq (heq.trans hplace)).symm.trans (place_eq_names hp hplace)
  exact (List.map_inj_right fun _ _ h => String.ofList_inj.mp h).mp hnames

end FileTree

end Abacus
