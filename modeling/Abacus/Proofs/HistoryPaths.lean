import Abacus.Console.HistoryPath
import Abacus.Proofs.PathNames

/-!
# Paths that go on from the home directory

The line history is kept below the home directory unless the user names an absolute path.  Below is
meant component by component, in the way in which `/home/ann` is below `/home` and `/homestead` is
not (`Path.Within`).  Nothing is said about `..`: the path `/home/../x` goes on from `/home`.  Where
a path does without it, it also leads to a place in the directory that it goes on from
(`FileTree.place_isPrefix_of_within`).

A name that is not absolute is meant in the home directory (`Below`): `~` is that directory, what is
behind `~/` stands in it, and so does any other name.  Joining keeps the home directory as long as
what is meant in it is a relative path (`Path.within_join`), and there is one way in which it is
not: behind `~/` there may be another slash.  An absolute path is not joined to anything, so the history
then leaves the home directory.
-/

namespace Abacus

namespace Path

/-! ## Components -/

/-- What a path starts from, where that is written: the root, or a `.` in front. -/
def origin (p : String) : List (List Char) := [(splitLead p.toList).1].filter (· ≠ [])

/-- The components of a path. -/
def components (p : String) : List (List Char) := origin p ++ names p

/-- The path is the base, or it goes on from there. -/
def Within (base p : String) : Prop := components base <+: components p

instance (base p : String) : Decidable (Within base p) :=
  inferInstanceAs (Decidable (components base <+: components p))

/-- A name that only begins with the base is another name. -/
example : Within "/home" "/home//./ann" ∧ ¬ Within "/home" "/homestead" := by decide +kernel

theorem Within.refl (p : String) : Within p p := List.prefix_rfl

/-- What comes behind a slash does not change where a path starts from. -/
theorem splitLead_append_slash {cs : List Char} (h : cs ≠ []) (ds : List Char) :
    (splitLead (cs ++ '/' :: ds)).1 = (splitLead cs).1 := by
  fun_cases splitLead cs with
  | case1 cs => rfl
  | case2 => rfl
  | case3 cs => rfl
  | case4 cs hroot hdot hlead =>
    -- The text starts with a name, and a slash behind a name is neither the root nor behind a `.`.
    obtain ⟨c, cs, rfl⟩ := List.exists_cons_of_ne_nil h
    rw [List.cons_append, splitLead]
    · rintro more heq
      exact hroot cs (by rw [(List.cons.inj heq).1])
    · rintro heq
      exact List.append_ne_nil_of_right_ne_nil _ (List.cons_ne_nil _ _) (List.cons.inj heq).2
    · rintro more heq
      obtain ⟨rfl, hcs⟩ := List.cons.inj heq
      cases cs with
      | nil => exact hdot rfl
      | cons d cs => exact hlead cs (by rw [(List.cons.inj hcs).1])

theorem origin_join {base child : String} (hbase : base ≠ "") (hchild : isAbsolute child = false) :
    origin (join base child) = origin base := by
  obtain ⟨front, hjoin, hfront⟩ := toList_join hbase hchild
  unfold origin
  rw [hjoin]
  rcases hfront with h | h
  · rw [h, splitLead_append_slash (h ▸ mt String.toList_eq_nil_iff.mp hbase)]
  · by_cases hnil : front = []
    · -- The base is the root, and the slash is all there is of it.
      rw [h, hnil]
      rfl
    · rw [h, splitLead_append_slash hnil, splitLead_append_slash hnil]

/-- **A joined path goes on from its base**, unless the child is absolute. -/
theorem within_join (base : String) {child : String} (hchild : isAbsolute child = false) :
    Within base (join base child) := by
  by_cases hbase : base = ""
  · rw [hbase]
    exact List.nil_prefix
  · refine ⟨names child, ?_⟩
    rw [components, components, origin_join hbase hchild, names_join base hchild, List.append_assoc]

/-- An absolute path stays what it is. -/
theorem join_of_isAbsolute (base : String) {child : String} (hchild : isAbsolute child = true) :
    join base child = child := by
  simp [join, hchild]

/-! ## Going on from an absolute path -/

/-- Only absolute paths start from the root. -/
theorem origin_cases (p : String) :
    (isAbsolute p = true ∧ origin p = [['/']]) ∨
      (isAbsolute p = false ∧ (origin p = [] ∨ origin p = [['.']])) := by
  obtain ⟨happend, ⟨hnil, hhead⟩ | hroot | ⟨hdot, -⟩⟩ := splitLead_spec p.toList
  · exact .inr ⟨by simpa [isAbsolute] using hhead, .inl (by simp [origin, hnil])⟩
  · refine .inl ⟨?_, by simp [origin, hroot]⟩
    rw [isAbsolute, ← happend, hroot]
    rfl
  · refine .inr ⟨?_, .inr (by simp [origin, hdot])⟩
    rw [isAbsolute, ← happend, hdot]
    rfl

theorem not_mem_of_mem_split {component cs : List Char} (h : component ∈ split cs) :
    '/' ∉ component := by
  induction cs generalizing component with
  | nil =>
    rw [List.mem_singleton.mp h]
    exact List.not_mem_nil
  | cons c cs ih =>
    rw [split] at h
    split at h
    next =>
      rcases List.mem_cons.mp h with rfl | h
      · exact List.not_mem_nil
      · exact ih h
    next hc =>
      cases hsplit : split cs with
      | nil => exact absurd hsplit (split_ne_nil cs)
      | cons name names =>
        simp only [hsplit] at h ih
        rcases List.mem_cons.mp h with rfl | h
        · exact not_or.mpr ⟨Ne.symm hc, ih (List.mem_cons_self ..)⟩ ∘ List.mem_cons.mp
        · exact ih (List.mem_cons_of_mem _ h)

/-- What goes on from an absolute path is absolute, and its names go on from those of that path. -/
theorem Within.absolute {base p : String} (h : Within base p) (hbase : isAbsolute base = true) :
    isAbsolute p = true ∧ names base <+: names p := by
  have hcomponents : [['/']] ++ names base <+: origin p ++ names p := by
    rcases origin_cases base with ⟨-, horigin⟩ | ⟨hrelative, -⟩
    · exact horigin ▸ h
    · exact absurd hbase (by simp [hrelative])
  rcases origin_cases p with ⟨habsolute, horigin⟩ | ⟨-, horigin | horigin⟩
  · rw [horigin] at hcomponents
    exact ⟨habsolute, (List.prefix_append_right_inj _).mp hcomponents⟩
  · -- A name has no slash in it.
    rw [horigin] at hcomponents
    have hmem : ['/'] ∈ names p := hcomponents.subset (List.mem_cons_self ..)
    exact absurd (List.mem_singleton_self _) (not_mem_of_mem_split (List.mem_filter.mp hmem).1)
  · rw [horigin] at hcomponents
    exact absurd (List.cons_prefix_cons.mp hcomponents).1 (by decide)

theorem Forward.of_within {base p : String} (h : Forward base) (hwithin : Within base p)
    (hup : ['.', '.'] ∉ names p) : Forward p :=
  ⟨(hwithin.absolute h.isAbsolute).1, hup⟩

end Path

/-- **A path within another leads to a place within its place**, if it does not go upwards. -/
theorem FileTree.place_isPrefix_of_within {t : FileTree} {base p : String} {place place' : Place}
    (hbase : Path.Forward base) (hwithin : Path.Within base p)
    (hup : ['.', '.'] ∉ Path.names p) (hplace : t.place base = .ok place)
    (hplace' : t.place p = .ok place') : place <+: place' := by
  rw [place_eq_names hbase hplace, place_eq_names (hbase.of_within hwithin hup) hplace']
  exact (hwithin.absolute hbase.isAbsolute).2.map _

namespace Console

open Abacus.Path (isAbsolute join names Within)

/-! ## Names in the home directory -/

/-- What a name means as seen from the home directory, if it is not absolute. -/
inductive Below : String → String → Prop where
  | home : Below "~" ""
  | tilde (child : String) : Below ("~/" ++ child) child
  | plain {name : String} : name ≠ "" → isAbsolute name = false → name ≠ "~" →
      (∀ child, name ≠ "~/" ++ child) → Below name name

theorem toList_tilde (child : String) : ("~/" ++ child).toList = '~' :: '/' :: child.toList :=
  String.toList_append

theorem tilde_ne_home (child : String) : "~/" ++ child ≠ "~" := fun h =>
  List.cons_ne_nil _ _
    (List.cons.inj ((toList_tilde child).symm.trans (congrArg String.toList h))).2

theorem exists_below_iff (name : String) :
    (∃ child, Below name child) ↔ name ≠ "" ∧ isAbsolute name = false := by
  constructor
  · rintro ⟨child, hbelow⟩
    cases hbelow with
    | home => decide
    | tilde =>
      refine ⟨fun h => absurd (String.append_eq_empty_iff.mp h).1 (by decide), ?_⟩
      rw [isAbsolute, toList_tilde]
      rfl
    | plain hne hrelative => exact ⟨hne, hrelative⟩
  · rintro ⟨hne, hrelative⟩
    by_cases hhome : name = "~"
    · exact ⟨"", hhome ▸ .home⟩
    · by_cases htilde : ∃ child, name = "~/" ++ child
      · obtain ⟨child, rfl⟩ := htilde
        exact ⟨child, .tilde child⟩
      · exact ⟨name, .plain hne hrelative hhome (not_exists.mp htilde)⟩

theorem Below.eq_of_tilde {name child rest : String} (h : Below name child)
    (hname : name = "~/" ++ rest) : child = rest := by
  cases h with
  | home => exact absurd hname.symm (tilde_ne_home rest)
  | tilde =>
    have htoList := congrArg String.toList hname
    rw [toList_tilde, toList_tilde] at htoList
    exact String.toList_inj.mp (List.cons.inj (List.cons.inj htoList).2).2
  | plain _ _ _ htilde => exact absurd hname (htilde rest)

/-- Only behind `~/` there can be anything absolute. -/
theorem Below.isAbsolute_eq_false {name child : String} (h : Below name child)
    (hrest : ∀ rest, name = "~/" ++ rest → isAbsolute rest = false) : isAbsolute child = false := by
  cases h with
  | home => decide
  | tilde => exact hrest child rfl
  | plain _ hrelative => exact hrelative

/-! ## Where the history file is -/

variable {home chosen : Option String} {name child : String}

theorem historyPath?_of_empty (hname : Text.trim (chosen.getD "") = "") :
    historyPath? home chosen = home.map fun h => join (join h ".zappac") "repl_history" := by
  unfold historyPath?
  rw [hname]
  rfl

theorem historyPath?_of_isAbsolute (hname : Text.trim (chosen.getD "") = name)
    (habsolute : isAbsolute name = true) : historyPath? home chosen = some name := by
  have hhome : name ≠ "~" := by
    rintro rfl
    exact absurd habsolute (by decide)
  unfold historyPath?
  simp only [hname, String.isEmpty_iff, Path.ne_empty_of_isAbsolute habsolute, hhome, if_false]
  split
  next rest hrest =>
    simp [isAbsolute, hrest] at habsolute
  next => rw [if_pos habsolute]

theorem historyPath?_of_below (hname : Text.trim (chosen.getD "") = name)
    (hbelow : Below name child) :
    historyPath? home chosen = home.map fun h => if name = "~" then h else join h child := by
  have hne : name ≠ "" := ((exists_below_iff name).mp ⟨child, hbelow⟩).1
  unfold historyPath?
  simp only [hname, String.isEmpty_iff, hne, if_false]
  cases hbelow with
  | home => cases home <;> rfl
  | tilde => simp only [tilde_ne_home child, if_false, toList_tilde, String.ofList_toList]
  | plain _ hrelative hhome htilde =>
    simp only [hhome, if_false]
    split
    next rest hrest =>
      refine absurd (String.toList_inj.mp ?_) (htilde (String.ofList rest))
      rw [hrest, toList_tilde, String.toList_ofList]
    next => rw [if_neg (by simp [hrelative])]

/-- A relative path that is meant in the home directory is found there. -/
theorem within_of_below {home : String} (hname : Text.trim (chosen.getD "") = name)
    (hbelow : Below name child) (hchild : isAbsolute child = false) :
    ∃ path, historyPath? (some home) chosen = some path ∧
      Within home path ∧ names path = names home ++ names child := by
  refine ⟨_, historyPath?_of_below hname hbelow, ?_⟩
  split
  next hhome =>
    cases hbelow with
    | home => exact ⟨.refl home, (List.append_nil _).symm⟩
    | tilde => exact absurd hhome (tilde_ne_home child)
    | plain _ _ hne => exact absurd hhome hne
  next => exact ⟨Path.within_join home hchild, Path.names_join home hchild⟩

/-- Nothing of the home directory is left in front of an absolute path. -/
theorem historyPath?_of_tilde {home rest : String}
    (hname : Text.trim (chosen.getD "") = "~/" ++ rest) (hrest : isAbsolute rest = true) :
    historyPath? (some home) chosen = some rest := by
  rw [historyPath?_of_below hname (.tilde rest), Option.map_some, if_neg (tilde_ne_home rest),
    Path.join_of_isAbsolute home hrest]

/-- Without a home directory only an absolute name leads anywhere. -/
theorem historyPath?_none (chosen : Option String) :
    historyPath? none chosen =
      if isAbsolute (Text.trim (chosen.getD "")) then some (Text.trim (chosen.getD ""))
      else none := by
  split
  next habsolute => exact historyPath?_of_isAbsolute rfl habsolute
  next hrelative =>
    by_cases hne : Text.trim (chosen.getD "") = ""
    · exact historyPath?_of_empty hne
    · obtain ⟨child, hbelow⟩ := (exists_below_iff _).mpr ⟨hne, by simpa using hrelative⟩
      exact historyPath?_of_below rfl hbelow

/-- **The history file is found from the home directory**, unless its name is absolute.  Blanks
around the name do not count.

* Without a home directory only an absolute name leads anywhere.
* No name stands for `.zappac/repl_history` in the home directory, and an absolute name for itself.
* The path for any other name goes on from the home directory, with the names that are meant there,
  as long as there is no absolute path behind `~/`.
* With an absolute path behind `~/` it is that path, and the home directory does not matter. -/
theorem history_found_from_home (chosen : Option String) :
    let name := Text.trim (chosen.getD "")
    historyPath? none chosen = (if isAbsolute name then some name else none) ∧
      ∀ home, ∃ path, historyPath? (some home) chosen = some path ∧
        (name = "" → path = join (join home ".zappac") "repl_history") ∧
        (isAbsolute name = true → path = name) ∧
        (name ≠ "" → isAbsolute name = false →
          ((∀ rest, name = "~/" ++ rest → isAbsolute rest = false) →
            Within home path ∧
              ∃ child, Below name child ∧ names path = names home ++ names child) ∧
          ∀ rest, name = "~/" ++ rest → isAbsolute rest = true → path = rest) := by
  intro name
  refine ⟨historyPath?_none chosen, fun home => ?_⟩
  by_cases hne : name = ""
  · refine ⟨_, historyPath?_of_empty hne, fun _ => rfl, fun habsolute => ?_, fun h => absurd hne h⟩
    exact absurd hne (Path.ne_empty_of_isAbsolute habsolute)
  cases habsolute : isAbsolute name with
  | true =>
    exact ⟨name, historyPath?_of_isAbsolute rfl habsolute, fun h => absurd h hne, fun _ => rfl,
      fun _ h => absurd h.symm Bool.false_ne_true⟩
  | false =>
    -- The name is meant in the home directory.  What counts is whether it is joined there.
    by_cases htilde : ∃ rest, name = "~/" ++ rest ∧ isAbsolute rest = true
    · obtain ⟨rest, hname, hrest⟩ := htilde
      have hbelow : Below name rest := hname ▸ .tilde rest
      refine ⟨rest, historyPath?_of_tilde hname hrest, fun h => absurd h hne,
        fun h => absurd h Bool.false_ne_true, fun _ _ => ⟨fun h => ?_, fun _ hother _ => ?_⟩⟩
      · exact absurd hrest (by simp [h rest hname])
      · exact hbelow.eq_of_tilde hother
    · have hrelative : ∀ rest, name = "~/" ++ rest → isAbsolute rest = false := by
        simpa using htilde
      obtain ⟨child, hbelow⟩ := (exists_below_iff name).mpr ⟨hne, habsolute⟩
      obtain ⟨path, hpath, hwithin, hnames⟩ :=
        within_of_below rfl hbelow (hbelow.isAbsolute_eq_false hrelative)
      refine ⟨path, hpath, fun h => absurd h hne, fun h => absurd h Bool.false_ne_true, fun _ _ =>
        ⟨fun _ => ⟨hwithin, child, hbelow, hnames⟩, fun rest hname hrest => ?_⟩⟩
      exact absurd hrest (by simp [hrelative rest hname])

/-- A second slash right behind `~/` leads out of the home directory.  One further behind says
nothing. -/
theorem history_found_from_home_slashes :
    (historyPath? (some "/home/t") (some "~//abs") = some "/abs" ∧ ¬ Within "/home/t" "/abs") ∧
      ∃ path, historyPath? (some "/home/t") (some " ~/logs//./abs ") = some path ∧
        Within "/home/t" path ∧ ∃ child, Below "~/logs//./abs" child ∧
          names path = names "/home/t" ++ names child := by
  constructor
  · obtain ⟨path, hpath, -, -, hother⟩ := (history_found_from_home (some "~//abs")).2 "/home/t"
    obtain rfl := (hother (by decide +kernel) (by decide +kernel)).2 "/abs" (by decide +kernel)
      (by decide +kernel)
    exact ⟨hpath, by decide +kernel⟩
  · have hname : Text.trim " ~/logs//./abs " = "~/logs//./abs" := by decide +kernel
    have hbelow : Below "~/logs//./abs" "logs//./abs" := .tilde "logs//./abs"
    obtain ⟨path, hpath, -, -, hother⟩ :=
      (history_found_from_home (some " ~/logs//./abs ")).2 "/home/t"
    simp only [Option.getD_some, hname] at hother
    refine ⟨path, hpath, (hother (by decide) (by decide)).1 fun rest hrest => ?_⟩
    rw [← hbelow.eq_of_tilde hrest]
    decide

/-- **The history stays in the home directory.**  If what is meant there does not go upwards, then
in any tree of files the path leads to the place of the home directory or to one below it. -/
theorem place_isPrefix_of_below {t : FileTree} {home path : String} {place place' : Place}
    (hhome : Path.Forward home) (hname : Text.trim (chosen.getD "") = name)
    (hbelow : Below name child) (hchild : isAbsolute child = false)
    (hup : ['.', '.'] ∉ names child) (hpath : historyPath? (some home) chosen = some path)
    (hplace : t.place home = .ok place) (hplace' : t.place path = .ok place') :
    place <+: place' := by
  obtain ⟨p, hp, hwithin, hnames⟩ := within_of_below hname hbelow hchild
  obtain rfl := Option.some.inj (hp.symm.trans hpath)
  refine FileTree.place_isPrefix_of_within hhome hwithin ?_ hplace hplace'
  rw [hnames, List.mem_append]
  exact not_or.mpr ⟨hhome.not_mem, hup⟩

end Console

end Abacus
