import Abacus.Proofs.FileLaws

/-!
# Parents of paths that lead somewhere

Parents are taken on the text of a path, while places are found in a tree.  The two agree in
one direction, which is all that is needed: if a path leads somewhere, even to a place where
nothing stands yet, then its parent is a directory (`FileTree.kind_parent`).  The text of the
parent is the beginning of that of the path, up to a slash (`Path.parent?_spec`), and a path is
followed from directory to directory.
-/

namespace Abacus

namespace Path

theorem split_ne_nil (cs : List Char) : split cs ≠ [] := by
  cases cs with
  | nil => simp [split]
  | cons c cs =>
    rw [split]
    split
    · simp
    · split <;> simp

/-- A slash separates what is before it from what is behind it. -/
theorem split_append (cs ds : List Char) : split (cs ++ '/' :: ds) = split cs ++ split ds := by
  induction cs with
  | nil => simp [split]
  | cons c cs ih =>
    rw [List.cons_append, split, split, ih]
    split
    · rfl
    · have hne := split_ne_nil cs
      cases hcs : split cs with
      | nil => exact absurd hcs hne
      | cons name names => rfl

theorem split_of_not_mem {cs : List Char} (h : '/' ∉ cs) : split cs = [cs] := by
  induction cs with
  | nil => rfl
  | cons c cs ih =>
    obtain ⟨hc, hcs⟩ := not_or.mp (mt List.mem_cons.mpr h)
    rw [split, if_neg (Ne.symm hc), ih hcs]

/-! ## The text of a parent

A path is cut from its end, so `rev` is the text of a path backwards.
-/

/-- Nothing, or a slash with what is behind it, has been cut off the end of a path. -/
def IsCut (rest rev : List Char) : Prop := rest = rev ∨ ∃ junk, rev = junk ++ '/' :: rest

/-- One cut after another. -/
theorem IsCut.behind {rest more rev junk : List Char} (h : IsCut rest more)
    (hrev : rev = junk ++ '/' :: more) : ∃ junk, rev = junk ++ '/' :: rest := by
  rcases h with rfl | ⟨junk', rfl⟩
  · exact ⟨junk, hrev⟩
  · exact ⟨junk ++ '/' :: junk', by rw [hrev, List.append_assoc, List.cons_append]⟩

theorem IsCut.exists_append {rest rev : List Char} (h : IsCut rest rev) :
    ∃ tail, rev.reverse = rest.reverse ++ tail := by
  rcases h with rfl | ⟨junk, rfl⟩
  · exact ⟨[], (List.append_nil _).symm⟩
  · exact ⟨'/' :: junk.reverse, by simp⟩

/-- The last component is separated from those before it, if there are any, by a slash. -/
theorem takeLast_spec (rev : List Char) :
    (takeLast rev).2 = [] ∨ rev = (takeLast rev).1 ++ '/' :: (takeLast rev).2 := by
  unfold takeLast
  have happend : rev.takeWhile (· != '/') ++ rev.dropWhile (· != '/') = rev :=
    List.takeWhile_append_dropWhile
  cases hdrop : rev.dropWhile (· != '/') with
  | nil => exact .inl rfl
  | cons d ds =>
    have hd : d = '/' := by
      have hne : rev.dropWhile (· != '/') ≠ [] := by simp [hdrop]
      have hhead := List.head_dropWhile_not (· != '/') hne
      simpa [hdrop] using hhead
    rw [hdrop, hd] at happend
    exact .inr happend.symm

theorem trimTail_cons (c : Char) (rev : List Char) :
    trimTail (c :: rev) =
      if (takeLast (c :: rev)).1 = [] ∨ (takeLast (c :: rev)).1 = ['.'] then
        trimTail (takeLast (c :: rev)).2
      else c :: rev := by
  rw [trimTail]

/-- Dropping the components that say nothing takes off whole components, or everything. -/
theorem trimTail_spec (rev : List Char) :
    trimTail rev = [] ∨ IsCut (trimTail rev) rev := by
  induction hn : rev.length using Nat.strongRecOn generalizing rev with
  | ind n ih =>
    cases rev with
    | nil => exact .inl (by rw [trimTail])
    | cons c rev =>
      rw [trimTail_cons]
      split
      next =>
        rcases takeLast_spec (c :: rev) with h | h
        · rw [h]
          exact .inl (by rw [trimTail])
        · rcases ih _ (hn ▸ takeLast_length (List.cons_ne_nil c rev)) _ rfl with ht | ht
          · exact .inl ht
          · exact .inr (.inr (ht.behind h))
      next => exact .inr (.inl rfl)

/-- What is left in front of the last component is in front of a slash. -/
theorem exists_slash_of_trimTail {rev : List Char} (h : trimTail (takeLast rev).2 ≠ []) :
    ∃ junk, rev = junk ++ '/' :: trimTail (takeLast rev).2 := by
  rcases takeLast_spec rev with hlast | hlast
  · rw [hlast, trimTail] at h
    exact absurd rfl h
  · exact ((trimTail_spec _).resolve_left h).behind hlast

/-- What is left does not end with a slash. -/
theorem head?_trimTail (rev : List Char) : (trimTail rev).head? ≠ some '/' := by
  induction hn : rev.length using Nat.strongRecOn generalizing rev with
  | ind n ih =>
    cases rev with
    | nil => simp [trimTail]
    | cons c rev =>
      rw [trimTail_cons]
      split
      next => exact ih _ (hn ▸ takeLast_length (List.cons_ne_nil c rev)) _ rfl
      next hname =>
        rintro heq
        obtain rfl : c = '/' := Option.some.inj heq
        exact hname (.inl rfl)

theorem splitLead_spec (cs : List Char) :
    (splitLead cs).1 ++ (splitLead cs).2 = cs ∧
      (((splitLead cs).1 = [] ∧ cs.head? ≠ some '/') ∨ (splitLead cs).1 = ['/'] ∨
        ((splitLead cs).1 = ['.'] ∧
          ((splitLead cs).2 = [] ∨ ∃ ds, (splitLead cs).2 = '/' :: ds))) := by
  unfold splitLead
  split
  next => simp
  next => simp
  next => simp
  next hslash _ _ =>
    refine ⟨rfl, .inl ⟨rfl, fun h => ?_⟩⟩
    obtain ⟨ds, rfl⟩ := List.head?_eq_some_iff.mp h
    exact hslash ds rfl

/-- What is taken for the parent of a path. -/
theorem parent?_eq_some {p d : String} (h : parent? p = some d) :
    ∃ lead body, splitLead p.toList = (lead, body) ∧
      ((lead = ['.'] ∧ d = "") ∨ (trimTail body.reverse ≠ [] ∧
        d = String.ofList (lead ++ (trimTail (takeLast (trimTail body.reverse)).2).reverse))) := by
  unfold parent? at h
  cases hlead : splitLead p.toList with
  | mk lead body =>
    refine ⟨lead, body, rfl, ?_⟩
    simp only [hlead] at h
    split at h
    next hnil =>
      split at h
      next hdot => exact .inl ⟨hdot, (Option.some.inj h).symm⟩
      next => cases h
    next hrev => exact .inr ⟨hrev, (Option.some.inj h).symm⟩

/-- **A parent is the beginning of its path**, up to a slash.  The root is the parent only of
absolute paths, and the empty path only of others.  Except for the root, no parent ends with a
slash. -/
theorem parent?_spec {p d : String} (h : parent? p = some d) :
    (d = "" ∧ isAbsolute p = false) ∨ (d = "/" ∧ isAbsolute p = true) ∨
      (d ≠ "" ∧ d.toList.getLast? ≠ some '/' ∧ ∃ cs, p.toList = d.toList ++ '/' :: cs) := by
  obtain ⟨lead, body, hsplit, hd⟩ := parent?_eq_some h
  obtain ⟨happend, hlead⟩ := splitLead_spec p.toList
  rw [hsplit] at happend hlead
  simp only at happend hlead
  unfold isAbsolute
  rcases hd with ⟨rfl, rfl⟩ | ⟨hrev, rfl⟩
  · refine .inl ⟨rfl, ?_⟩
    rw [← happend]
    rfl
  obtain ⟨tail, hbody⟩ := ((trimTail_spec body.reverse).resolve_left hrev).exists_append
  rw [List.reverse_reverse] at hbody
  generalize trimTail body.reverse = rev at hrev hbody ⊢
  subst hbody
  have hhead := head?_trimTail (takeLast rev).2
  by_cases hnil : trimTail (takeLast rev).2 = []
  · -- Nothing is left but the lead.
    rw [hnil]
    rcases hlead with ⟨rfl, hslash⟩ | rfl | ⟨rfl, hdot⟩
    · exact .inl ⟨by simp, by simpa using hslash⟩
    · refine .inr (.inl ⟨by simp, ?_⟩)
      rw [← happend]
      rfl
    · refine .inr (.inr ⟨by simp, by simp, ?_⟩)
      rcases hdot with hdot | ⟨ds, hdot⟩
      · exact absurd (List.reverse_eq_nil_iff.mp (List.append_eq_nil_iff.mp hdot).1) hrev
      · exact ⟨ds, by rw [← happend, hdot]; simp⟩
  · obtain ⟨more, hslash⟩ := exists_slash_of_trimTail hnil
    generalize trimTail (takeLast rev).2 = parent at hnil hhead hslash ⊢
    subst hslash
    refine .inr (.inr ⟨by simp [hnil], ?_, more.reverse ++ tail, by rw [← happend]; simp⟩)
    rw [String.toList_ofList, List.getLast?_append, List.getLast?_reverse]
    cases hp : parent.head? with
    | none => exact absurd (List.head?_eq_none_iff.mp hp) hnil
    | some c => simpa [hp] using hhead

end Path

namespace FileTree

/-! ## Following paths -/

variable {t : FileTree}

/-- A path is followed piece by piece. -/
theorem follow_append (t : FileTree) (start : Place) (names more : List (List Char)) :
    t.follow start (names ++ more) = (t.follow start names).bind fun p => t.follow p more := by
  induction names generalizing start with
  | nil => rfl
  | cons name names ih =>
    rw [List.cons_append, follow, follow]
    split
    · rfl
    · rfl
    · split_ifs
      · exact ih start
      · exact ih _
      · rfl
      · exact ih _

/-- Only from a directory one gets further. -/
theorem kindAt?_of_follow_cons {start place : Place} {name : List Char} {names : List (List Char)}
    (h : t.follow start (name :: names) = .ok place) : t.kindAt? start = some .directory := by
  rw [follow] at h
  split at h
  next => cases h
  next => cases h
  next hkind => exact hkind

/-- What a path that leads somewhere is like. -/
theorem place_eq_ok_iff {path : String} {place : Place} :
    t.place path = .ok place ↔
      '\x00' ∉ path.toList ∧ path ≠ "" ∧ Text.size path ≤ pathLimit ∧
        t.follow (if Path.isAbsolute path then [] else t.workingDirectory)
          (Path.split path.toList) = .ok place := by
  have hguard : ∀ {c : Prop} [Decidable c] {e : FileError} {x : Except FileError Place},
      (if c then .error e else x) = .ok place ↔ ¬ c ∧ x = .ok place := fun {c} _ {e} {x} => by
    by_cases h : c <;> simp [h]
  unfold FileTree.place
  rw [hguard, hguard, hguard]
  simp

theorem kind_eq_ok_iff {path : String} {k : FileKind} :
    t.kind path = .ok k ↔ ∃ place, t.place path = .ok place ∧ t.kindAt? place = some k := by
  unfold kind
  cases t.place path with
  | error e => simp
  | ok place =>
    cases hkind : t.kindAt? place <;> simp [hkind]

theorem kind_root (t : FileTree) : t.kind "/" = .ok .directory := by
  have hroot : t.kindAt? [] = some .directory := by simp [kindAt?]
  refine kind_eq_ok_iff.mpr ⟨[], place_eq_ok_iff.mpr ⟨by decide, by decide, by decide, ?_⟩, hroot⟩
  show t.follow [] [[], []] = .ok []
  simp [follow, hroot]

/-- The parent of a path that leads somewhere is a directory. -/
theorem kind_parent {path parent : String} {place : Place} (h : t.place path = .ok place)
    (hparent : Path.parent? path = some parent) (hne : parent ≠ "") :
    t.kind parent = .ok .directory := by
  rcases Path.parent?_spec hparent with ⟨rfl, -⟩ | ⟨rfl, -⟩ | ⟨-, -, cs, hcs⟩
  · exact absurd rfl hne
  · exact kind_root t
  · obtain ⟨hnul, -, hsize, hfollow⟩ := place_eq_ok_iff.mp h
    rw [hcs, Path.split_append, follow_append] at hfollow
    have habsolute : Path.isAbsolute path = Path.isAbsolute parent := by
      unfold Path.isAbsolute
      rw [hcs]
      cases hd : parent.toList with
      | nil => exact absurd (String.toList_eq_nil_iff.mp hd) hne
      | cons d ds => rfl
    rw [habsolute] at hfollow
    cases hto : t.follow (if Path.isAbsolute parent then [] else t.workingDirectory)
        (Path.split parent.toList) with
    | error e => simp [hto, Except.bind] at hfollow
    | ok to' =>
      rw [hto] at hfollow
      obtain ⟨name, names, hmore⟩ := List.exists_cons_of_ne_nil (Path.split_ne_nil cs)
      refine kind_eq_ok_iff.mpr ⟨to', place_eq_ok_iff.mpr ⟨?_, hne, ?_, hto⟩, ?_⟩
      · exact fun hmem => hnul (hcs ▸ List.mem_append_left _ hmem)
      · unfold Text.size at hsize ⊢
        rw [hcs, Text.byteSize_append] at hsize
        omega
      · exact kindAt?_of_follow_cons (hmore ▸ hfollow)

/-- A relative path that leads somewhere starts in a directory. -/
theorem kindAt?_workingDirectory {path : String} {place : Place} (h : t.place path = .ok place)
    (hrelative : Path.isAbsolute path = false) :
    t.kindAt? t.workingDirectory = some .directory := by
  obtain ⟨-, -, -, hfollow⟩ := place_eq_ok_iff.mp h
  obtain ⟨name, names, hsplit⟩ := List.exists_cons_of_ne_nil (Path.split_ne_nil path.toList)
  rw [hrelative, hsplit] at hfollow
  exact kindAt?_of_follow_cons hfollow

end FileTree

end Abacus
