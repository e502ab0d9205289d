import Abacus.Proofs.CanonicalSettings
import Abacus.Proofs.Discovery
import Abacus.Proofs.RepeatedStores

/-!
# What is saved is there at the next start

A session is opened with the settings that count and with the file in which its snapshots are
stored.  The next start looks for settings anew.  This module puts the two together: if a
snapshot could be stored at all, then the next start in the same place comes to the same file
and reads the same settings, with the last snapshot in them (`loadSettings_after_save`).

This covers all ways in which a session comes to its file.  It may have been named, and be there
or not; it may have been found in the working directory, above it or in the home directory; or
there may have been none, and it is made together with the directories that it needs.

What is stored has to be read back, and this is asked of the tables that are written
(`Toml.ReadsBack`); `Settings.readsBack_withSnapshot` tells of which tables it holds.

## Two ways to differ

A file that has been made may be found under another path than the one under which it was made,
because the working directory comes before the home directory.  This takes a home directory that
is written with `..`.  And a section `repl` that is spelled like a date is stored as a date, and
the fields behind the date are lost.  Both are shown at the end (`start_differs`).
-/

namespace Abacus.App

open Settings (HoldsTable withSnapshot candidates userPath ofTable? parse?)
open Toml (Table ReadsBack tableOf?)

/-- The last snapshot of a run that could be stored. -/
def lastStored {σ : Type} [Host (StateM σ)] (path : String) (s : Calculator String)
    (calls : List (String × Bool)) (w : σ) : Option Attempt :=
  ((attempts path s calls w).filter fun a => a.result.isOk).getLast?

namespace Machine

variable {w later : Machine} {path : String} {settings : Settings} {table : Table}

/-! ## Loading -/

theorem load_eq_ok_iff :
    answer (Settings.load path) w = .ok settings ↔
      ∃ text, w.files.read path = .ok text ∧ parse? text = some settings := by
  unfold Settings.load
  rw [answer_bind, answer_read]
  cases w.files.read path with
  | error e => simp
  | ok text => cases hparse : parse? text <;> simp [hparse]

/-- Two paths to the same place give the same text. -/
theorem read_congr {t : FileTree} {p q : String} (h : t.place p = t.place q) :
    t.read p = t.read q := by
  unfold FileTree.read
  rw [h]

theorem hasFile_of_read {text : String} (h : w.files.read path = .ok text) :
    w.hasFile path = true := by
  rw [hasFile_iff, FileTree.kind_eq_ok_iff]
  unfold FileTree.read at h
  cases hplace : w.files.place path with
  | error e => simp [hplace] at h
  | ok place =>
    simp only [hplace] at h
    cases hkind : w.files.kindAt? place with
    | none => simp [hkind] at h
    | some k =>
      cases k with
      | directory => simp [hkind] at h
      | file => exact ⟨place, rfl, hkind⟩

/-- The table that is loaded is in the file, or empty where there is no file. -/
theorem loadTable_eq_ok (h : answer (Settings.loadTable path) w = .ok table) :
    (∃ text, w.files.read path = .ok text ∧ tableOf? text = some table) ∨
      ((∃ e, w.files.kind path = .error e) ∧ table = []) := by
  have hcases := Settings.loadTable_eq_ok h
  rwa [answer_read, answer_kind] at hcases

/-! ## The settings that count -/

/-- A named file that is there is loaded. -/
theorem loadSettings_named (here : Surroundings) (h : (w.files.kind path).isOk = true) :
    answer (loadSettings here (some path)) w =
      (answer (Settings.load path) w).map fun s => (s, some path) := by
  unfold loadSettings
  simp only [answer_bind, LawfulFiles.answer_isPresent, LawfulFiles.stateAfter_isPresent,
    answer_kind, h, if_true]
  cases answer (Settings.load path) w <;> rfl

/-- A named file that is missing stands for the defaults. -/
theorem loadSettings_missing (here : Surroundings) (h : (w.files.kind path).isOk = false) :
    answer (loadSettings here (some path)) w = .ok ({}, some path) := by
  unfold loadSettings
  simp only [answer_bind, LawfulFiles.answer_isPresent, LawfulFiles.stateAfter_isPresent,
    answer_kind, h]
  rfl

/-- Without a name the first file counts that is found. -/
theorem loadSettings_found {here : Surroundings}
    (h : (candidates here.directory here.home).find? w.hasFile = some path) :
    answer (loadSettings here none) w =
      (answer (Settings.load path) w).map fun s => (s, some path) := by
  obtain ⟨hanswer, hstate⟩ := firstFile_eq (candidates here.directory here.home) w
  unfold loadSettings Settings.find
  simp only [answer_bind, hanswer, hstate, h]
  cases answer (Settings.load path) w <;> rfl

/-- Where none is found, the defaults count, and snapshots go to the home directory. -/
theorem loadSettings_notFound {here : Surroundings}
    (h : (candidates here.directory here.home).find? w.hasFile = none) :
    answer (loadSettings here none) w = .ok ({}, here.home.map userPath) := by
  obtain ⟨hanswer, hstate⟩ := firstFile_eq (candidates here.directory here.home) w
  unfold loadSettings Settings.find
  simp only [answer_bind, hanswer, hstate, h]
  rfl

/-- How a session comes to its settings and its file: the file is there and holds them, or it is
not there, and they are the defaults. -/
theorem loadSettings_cases {here : Surroundings} {explicit : Option String} {target : String}
    (h : answer (loadSettings here explicit) w = .ok (settings, some target)) :
    (answer (Settings.load target) w = .ok settings ∧
      (explicit = some target ∨ explicit = none ∧
        (candidates here.directory here.home).find? w.hasFile = some target)) ∨
    (settings = {} ∧ w.hasFile target = false ∧
      (explicit = some target ∨ explicit = none ∧
        (candidates here.directory here.home).find? w.hasFile = none ∧
        ∃ home, here.home = some home ∧ target = userPath home)) := by
  have hloaded : ∀ {p : String},
      (answer (Settings.load p) w).map (fun s => (s, some p)) = .ok (settings, some target) →
        p = target ∧ answer (Settings.load target) w = .ok settings := fun {p} hmap => by
    cases hload : answer (Settings.load p) w with
    | error fault => simp [hload, Except.map] at hmap
    | ok s =>
      simp only [hload, Except.map, Except.ok.injEq, Prod.mk.injEq, Option.some.injEq] at hmap
      obtain ⟨rfl, rfl⟩ := hmap
      exact ⟨rfl, hload⟩
  cases explicit with
  | some p =>
    cases hkind : (w.files.kind p).isOk with
    | true =>
      rw [loadSettings_named here hkind] at h
      obtain ⟨rfl, hload⟩ := hloaded h
      exact .inl ⟨hload, .inl rfl⟩
    | false =>
      rw [loadSettings_missing here hkind] at h
      obtain ⟨rfl, rfl⟩ : {} = settings ∧ p = target := by simpa using h
      refine .inr ⟨rfl, ?_, .inl rfl⟩
      unfold hasFile
      cases hk : w.files.kind p with
      | error e => rfl
      | ok k => simp [hk, Except.isOk, Except.toBool] at hkind
  | none =>
    cases hfind : (candidates here.directory here.home).find? w.hasFile with
    | some p =>
      rw [loadSettings_found hfind] at h
      obtain ⟨rfl, hload⟩ := hloaded h
      exact .inl ⟨hload, .inr ⟨rfl, rfl⟩⟩
    | none =>
      rw [loadSettings_notFound hfind] at h
      obtain ⟨rfl, huser⟩ := Prod.mk.inj (Except.ok.inj h)
      obtain ⟨home, hhome, rfl⟩ := Option.map_eq_some_iff.mp huser
      refine .inr ⟨rfl, ?_, .inr ⟨rfl, rfl, home, hhome, rfl⟩⟩
      simpa using List.find?_eq_none.mp hfind (userPath home) (by simp [candidates, hhome])

/-- The settings of a session are those of the table in its file. -/
theorem exists_ofTable?_of_loadSettings {here : Surroundings} {explicit : Option String}
    {target : String}
    (h : answer (loadSettings here explicit) w = .ok (settings, some target))
    (hload : answer (Settings.loadTable target) w = .ok table) :
    ∃ raw, Table.canonical? raw = some table ∧ ofTable? raw = some settings := by
  rcases loadSettings_cases h with ⟨hsettings, -⟩ | ⟨rfl, hfile, -⟩
  · obtain ⟨text, hread, hparse⟩ := load_eq_ok_iff.mp hsettings
    obtain ⟨raw, hraw, hof⟩ := Option.bind_eq_some_iff.mp hparse
    rcases loadTable_eq_ok hload with ⟨text', hread', htable⟩ | ⟨⟨e, hkind⟩, -⟩
    · obtain rfl := Except.ok.inj (hread'.symm.trans hread)
      obtain ⟨raw', hraw', hcanonical⟩ := Option.bind_eq_some_iff.mp htable
      obtain rfl := Option.some.inj (hraw'.symm.trans hraw)
      exact ⟨_, hcanonical, hof⟩
    · have hthere := hasFile_iff.mp (hasFile_of_read hread)
      rw [hkind] at hthere
      cases hthere
  · rcases loadTable_eq_ok hload with ⟨text, hread, -⟩ | ⟨-, rfl⟩
    · rw [hasFile_of_read hread] at hfile
      cases hfile
    · exact ⟨[], rfl, rfl⟩

/-! ## After a run -/

/-- After a run in which a snapshot could be stored the file holds the last one, along with what
it held before. -/
theorem holdsTable_of_lastStored {s : Calculator String} (hook : s.hook = some path)
    {calls : List (String × Bool)} {a : Attempt} (hlast : lastStored path s calls w = some a)
    (hback : ∀ table, answer (Settings.loadTable path) w = .ok table →
      ∀ b ∈ attempts path s calls w,
        ReadsBack (withSnapshot table (Snapshot.write b.environment))) :
    ∃ table, answer (Settings.loadTable path) w = .ok table ∧
      HoldsTable path (withSnapshot table (Snapshot.write a.environment))
        (stateAfter (execAll s calls) w) := by
  obtain ⟨hmem, hok⟩ := List.mem_filter.mp (List.mem_of_getLast? hlast)
  have hresult : a.result = .ok () := by
    cases hresult : a.result with
    | error fault => simp [hresult, Except.isOk, Except.toBool] at hok
    | ok u => rfl
  obtain ⟨table, hload, hall⟩ := result_eq_ok_of_mem_attempts hook hmem hresult
  have hstored := hall (hback table hload)
  -- None of them failed, so the last one that could be stored is the last one.
  have hfilter : (attempts path s calls w).filter (fun b => b.result.isOk) =
      attempts path s calls w :=
    List.filter_eq_self.mpr fun b hb => by rw [hstored b hb]; rfl
  have hholds := holdsTable_execAll hook ⟨table, hload, fun _ => rfl⟩
    (fun b hb => by rw [hstored b hb]; trivial) (hback table hload)
  unfold lastStored at hlast
  rw [hfilter] at hlast
  rw [hlast] at hholds
  exact ⟨table, hload, hholds⟩

/-- Settings that are loaded from a file after a snapshot has been stored in it. -/
theorem load_of_holdsTable {raw : Table} {snapshot : String}
    (hraw : Table.canonical? raw = some table) (hsettings : ofTable? raw = some settings)
    (hdate : ∀ d, Entries.get? "repl" table ≠ some (.datetime d))
    (hholds : HoldsTable path (withSnapshot table snapshot) w) :
    answer (Settings.load path) w = .ok { settings with lastState := snapshot } := by
  obtain ⟨-, text, -, hread, htable⟩ := hholds
  obtain ⟨raw', hparse, hraw'⟩ := Option.bind_eq_some_iff.mp htable
  refine load_eq_ok_iff.mpr ⟨text, hread, ?_⟩
  unfold parse?
  rw [hparse]
  exact Settings.ofTable?_withSnapshot hraw hraw' hdate hsettings

section Start

variable {here : Surroundings} {explicit : Option String} {target : String}

/-- A start that looks for settings after a file has been stored finds it. -/
theorem loadSettings_of_load
    (hdirectory : ∀ d, here.directory = some d → w.files.kind d = .ok .directory)
    (hload : answer (loadSettings here explicit) w = .ok (settings, some target))
    (hgrows : FileTree.Grows target w.files later.files) {settings' : Settings}
    (hstored : answer (Settings.load target) later = .ok settings') :
    ∃ found, answer (loadSettings here explicit) later = .ok (settings', some found) ∧
      later.files.place found = later.files.place target ∧
      (found = target ∨ explicit = none ∧ w.hasFile target = false ∧
        found ∈ candidates here.directory here.home ∧
        target ∈ candidates here.directory here.home) := by
  obtain ⟨text, hread, -⟩ := load_eq_ok_iff.mp hstored
  have hthere := hasFile_of_read hread
  have hnamed : answer (loadSettings here (some target)) later = .ok (settings', some target) := by
    rw [loadSettings_named here (by rw [hasFile_iff.mp hthere]; rfl), hstored]
    rfl
  rcases loadSettings_cases hload with ⟨-, rfl | ⟨rfl, hfind⟩⟩ |
    ⟨-, hfile, rfl | ⟨rfl, hfind, home, hhome, huser⟩⟩
  · exact ⟨target, hnamed, rfl, .inl rfl⟩
  · refine ⟨target, ?_, rfl, .inl rfl⟩
    rw [loadSettings_found (find_of_found hdirectory hgrows hfind), hstored]
    rfl
  · exact ⟨target, hnamed, rfl, .inl rfl⟩
  · rw [hhome] at hfind
    obtain ⟨found, hfound, hplace, hpath⟩ := find_of_made hdirectory hgrows huser hfind hthere
    rw [← hhome] at hfound
    obtain ⟨text, hread, hparse⟩ := load_eq_ok_iff.mp hstored
    have hsame : answer (Settings.load found) later = .ok settings' :=
      load_eq_ok_iff.mpr ⟨text, (read_congr hplace).trans hread, hparse⟩
    refine ⟨found, by rw [loadSettings_found hfound, hsame]; rfl, hplace, ?_⟩
    rcases hpath with rfl | -
    · exact .inl rfl
    · refine .inr ⟨rfl, hfile, List.mem_of_find?_eq_some hfound, ?_⟩
      rw [candidates_eq_append, hhome, huser]
      simp

/-- **What is saved is there at the next start.**  Suppose that a start has given settings and a
file, and that a session over them has stored a snapshot.  A start in the same place, on the files
as they are then, gives a file in the same place and the same settings with the last snapshot that
was stored.

The path of the file is the same, unless no file was there and one has been made in the home
directory.  Then too it is the same as a path, if neither the working directory nor the home
directory is written with `..`.

It is asked that the working directory exists, that the tables which are written are read back,
and that the section `repl` is no date.  The machine has nothing but files and directories: where
there are symbolic links, a file can have two paths without any `..`, and a device need not keep
what is written to it. -/
theorem loadSettings_after_save
    (hdirectory : ∀ d, here.directory = some d → w.files.kind d = .ok .directory)
    (hload : answer (loadSettings here explicit) w = .ok (settings, some target))
    {calls : List (String × Bool)} {a : Attempt}
    (hlast : lastStored target (openSession settings (some target)) calls w = some a)
    (hback : ∀ table, answer (Settings.loadTable target) w = .ok table →
      ∀ b ∈ attempts target (openSession settings (some target)) calls w,
        ReadsBack (withSnapshot table (Snapshot.write b.environment)))
    (hdate : ∀ table, answer (Settings.loadTable target) w = .ok table →
      ∀ d, Entries.get? "repl" table ≠ some (.datetime d))
    (hlater : later.files =
      (stateAfter (execAll (openSession settings (some target)) calls) w).files) :
    ∃ found, answer (loadSettings here explicit) later =
        .ok ({ settings with lastState := Snapshot.write a.environment }, some found) ∧
      later.files.place found = later.files.place target ∧
      (explicit.isSome ∨ w.hasFile target → found = target) ∧
      ((∀ p, here.directory = some p ∨ here.home = some p → Path.Forward p) →
        found = target ∨ Path.Same found target) := by
  have hook : (openSession settings (some target)).hook = some target := rfl
  obtain ⟨table, htable, k, text, hkind, hread, hheld⟩ := holdsTable_of_lastStored hook hlast hback
  obtain ⟨raw, hraw, hsettings⟩ := exists_ofTable?_of_loadSettings hload htable
  -- What is in the files is all that counts.
  rw [answer_kind, ← hlater] at hkind
  rw [answer_read, ← hlater] at hread
  have hholds : HoldsTable target (withSnapshot table (Snapshot.write a.environment)) later :=
    ⟨k, text, hkind, hread, hheld⟩
  have hgrows : FileTree.Grows target w.files later.files := hlater ▸ grows_execAll hook calls w
  obtain ⟨found, hfound, hplace, hpath⟩ := loadSettings_of_load hdirectory hload hgrows
    (load_of_holdsTable hraw hsettings (hdate table htable) hholds)
  refine ⟨found, hfound, hplace, fun hthere => ?_, fun hforward => ?_⟩
  · rcases hpath with rfl | ⟨rfl, hfile, -⟩
    · rfl
    · simp [hfile] at hthere
  · rcases hpath with rfl | ⟨-, -, hmem, hmem'⟩
    · exact .inl rfl
    · obtain ⟨place, hto, -⟩ := FileTree.kind_eq_ok_iff.mp hkind
      exact .inr (FileTree.same_of_place_eq (forward_of_mem_candidates hforward hmem')
        (forward_of_mem_candidates hforward hmem) hto hplace)

end Start

section Examples

/-- No settings anywhere. -/
def unsettled : Machine :=
  { files := { workingDirectory := ["work"], nodes := [(["home"], none), (["work"], none)] } }

/-- Where the settings are made in the home directory. -/
def atWork : Surroundings := { directory := some "/work", home := some "/home" }

/-- The first start without any settings stores its snapshot in the home directory, and there the
second one finds it. -/
theorem loadSettings_after_save_unsettled :
    ∃ found, answer (loadSettings atWork none) (stateAfter (execAll
        (openSession {} (some "/home/.config/zappac/zappac.toml")) oneSave) unsettled) =
      .ok ({ lastState := "\x7b\"variables\":\x7b\"x\":2\x7d,\"output\":\"dec\",\"saved\":\x7b\"a\":\x7b\"x\":2\x7d\x7d\x7d" },
        some found) ∧
      (found = "/home/.config/zappac/zappac.toml" ∨
        Path.Same found "/home/.config/zappac/zappac.toml") := by
  have hload : answer (loadSettings atWork none) unsettled =
      .ok ({}, some "/home/.config/zappac/zappac.toml") := by decide +kernel
  have htable : answer (Settings.loadTable "/home/.config/zappac/zappac.toml") unsettled =
      .ok [] := by decide +kernel
  have hlast : (lastStored "/home/.config/zappac/zappac.toml"
      (openSession {} (some "/home/.config/zappac/zappac.toml")) oneSave unsettled).map
        (fun a => Snapshot.write a.environment) =
      some "\x7b\"variables\":\x7b\"x\":2\x7d,\"output\":\"dec\",\"saved\":\x7b\"a\":\x7b\"x\":2\x7d\x7d\x7d" := by
    decide +kernel
  obtain ⟨a, hlast, hsnapshot⟩ := Option.map_eq_some_iff.mp hlast
  have hdirectory : ∀ d, atWork.directory = some d → unsettled.files.kind d = .ok .directory := by
    rintro d hd
    obtain rfl := Option.some.inj hd
    decide +kernel
  have hback : ∀ b ∈ attempts "/home/.config/zappac/zappac.toml"
      (openSession {} (some "/home/.config/zappac/zappac.toml")) oneSave unsettled,
        ReadsBack (withSnapshot [] (Snapshot.write b.environment)) := by decide +kernel
  have hforward : ∀ p, atWork.directory = some p ∨ atWork.home = some p → Path.Forward p := by
    rintro p (hp | hp) <;> obtain rfl := Option.some.inj hp <;> decide +kernel
  obtain ⟨found, hfound, -, -, hpath⟩ := loadSettings_after_save hdirectory hload hlast
    (fun table h => Except.ok.inj (htable.symm.trans h) ▸ hback)
    (fun table h => Except.ok.inj (htable.symm.trans h) ▸ nofun) rfl
  exact ⟨found, hsnapshot ▸ hfound, hpath hforward⟩

/-- A home directory that is written with `..`, and a working directory in which the settings are
that belong to it. -/
def upward : Machine :=
  { files :=
      { workingDirectory := ["h", ".config", "zappac"]
        nodes := [(["h"], none), (["h", "x"], none), (["h", ".config"], none),
          (["h", ".config", "zappac"], none)] } }

/-- Where the working directory and the home directory are on that machine. -/
def atHome : Surroundings := { directory := some "/h/.config/zappac", home := some "/h/x/.." }

/-- A single line that saves. -/
def justSave : List (String × Bool) := [("save(a)", true)]

/-- Settings in which the section `repl` is spelled like a date. -/
def dated : Machine :=
  .withSettings "[repl]\n\"$__toml_private_datetime\" = \"1979-05-27\"\ncolor = false\n"

/-- What the next start does not keep.  With a home directory that is written with `..` it comes
to another path; and from a section that is spelled like a date it reads nothing but defaults,
although the table that was written is read back. -/
theorem start_differs :
    (answer (loadSettings atHome none) upward =
        .ok ({}, some "/h/x/../.config/zappac/zappac.toml") ∧
      (attempts "/h/x/../.config/zappac/zappac.toml"
        (openSession {} (some "/h/x/../.config/zappac/zappac.toml")) justSave upward).map
          (fun a => a.result) = [.ok ()] ∧
      (answer (loadSettings atHome none) (stateAfter (execAll
        (openSession {} (some "/h/x/../.config/zappac/zappac.toml")) justSave) upward)).map
          (fun loaded => loaded.2) = .ok (some "/h/.config/zappac/zappac.toml")) ∧
    ∃ table,
      answer (loadSettings atWork none) dated =
        .ok ({ repl := { color := false } }, some "/work/zappac.toml") ∧
      answer (Settings.loadTable "/work/zappac.toml") dated = .ok table ∧
      (∀ a ∈ attempts "/work/zappac.toml"
          (openSession { repl := { color := false } } (some "/work/zappac.toml")) justSave dated,
        a.result = .ok () ∧ ReadsBack (withSnapshot table (Snapshot.write a.environment))) ∧
      (answer (loadSettings atWork none) (stateAfter (execAll
        (openSession { repl := { color := false } } (some "/work/zappac.toml")) justSave)
          dated)).map (fun loaded => (loaded.1.repl, loaded.2)) =
        .ok ({ color := true }, some "/work/zappac.toml") := by
  refine ⟨⟨?_, ?_, ?_⟩, [("repl", .datetime { date := some ⟨1979, 5, 27⟩ })], ?_, ?_, ?_, ?_⟩
  · decide +kernel
  · decide +kernel
  · decide +kernel
  · decide +kernel
  · decide +kernel
  · decide +kernel
  · decide +kernel

end Examples

end Machine

end Abacus.App
