import Abacus.Proofs.CleanReports

/-!
# Colours

Colours are to be presentation only, and `--no-color` is to switch them off.  Both hold but for one
place each, and the two theorems here say what is true with these places counted in.

* Without the escape sequences of its palette, what a conversation writes in colours is what it
  writes without them, unless it lists a history that is not empty (`colours_only_dress`).  There
  the column of numbers is filled after they have been coloured, so that blanks are missing.
* With `--no-color`, nothing is written in colours once the settings are known: no escape character
  is written that the program has not been given, or that is not the editor's own
  (`noColor_after_settings`).  A fault of the settings is reported in colours nevertheless, unless
  the environment forbids them.
-/

namespace Abacus.App

open Console

/-! ## Conversations -/

theorem goesOn_step (o : Repl.Options) (s : Calculator String) (line : String) :
    (Repl.step o s line).goesOn = !ends line := by
  rcases Repl.step_cases o s line with ⟨hends, hstep⟩ | ⟨hends, -, hstep⟩ | ⟨hends, -, hgoes, -⟩
  · rw [hends, hstep]; rfl
  · rw [hends, hstep]; rfl
  · rw [hends, hgoes]; rfl

/-- Among the lines up to the one that ends the conversation there is one that lists a history which
is not empty then. -/
def ListsHistory (o : Repl.Options) (s : Calculator String) (lines : List (Option String)) : Prop :=
  ∃ before line after, lines = before.map some ++ some line :: after ∧
    (∀ l ∈ before, ends l = false) ∧ Command.read line = .command .history ∧
    (Repl.run o s before).1.record.history ≠ []

theorem listsHistory_cons (o : Repl.Options) (s : Calculator String) (line : String)
    (lines : List (Option String)) :
    ListsHistory o s (some line :: lines) ↔
      Marked.listsHistory s line = true ∨
        ends line = false ∧ ListsHistory o (Repl.step o s line).session lines := by
  have hgoes (h : ends line = false) : (Repl.step o s line).goesOn = true := by
    rw [goesOn_step, h]; rfl
  constructor
  · rintro ⟨before, listing, after, hlines, hbefore, hread, hhistory⟩
    cases before with
    | nil =>
      obtain ⟨rfl, rfl⟩ : line = listing ∧ lines = after := by simpa using hlines
      have hsome : s.record.history ≠ [] := hhistory
      exact .inl (by simpa [Marked.listsHistory, hread] using hsome)
    | cons first before =>
      obtain ⟨rfl, rfl⟩ : line = first ∧ lines = before.map some ++ some listing :: after := by
        simpa using hlines
      obtain ⟨hends, hbefore⟩ := List.forall_mem_cons.mp hbefore
      rw [Repl.run_cons_of_goesOn o (hgoes hends)] at hhistory
      exact .inr ⟨hends, before, listing, after, rfl, hbefore, hread, hhistory⟩
  · rintro (hlists | ⟨hends, before, listing, after, rfl, hbefore, hread, hhistory⟩)
    · obtain ⟨hread, hhistory⟩ : Command.read line = .command .history ∧ s.record.history ≠ [] := by
        simpa [Marked.listsHistory] using hlists
      exact ⟨[], line, lines, rfl, List.forall_mem_nil _, hread, hhistory⟩
    · refine ⟨line :: before, listing, after, rfl, List.forall_mem_cons.mpr ⟨hends, hbefore⟩,
        hread, ?_⟩
      rw [Repl.run_cons_of_goesOn o (hgoes hends)]
      exact hhistory

/-- The run lemma.  What is shown in a conversation is aligned, unless it lists a history that is
not empty. -/
theorem aligned_exchange_iff (r : ReplSettings) (p : Palette) {prompt : List (Marked String)}
    (hprompt : ∀ e ∈ prompt, e.Aligned) (s : Calculator String) (lines : List (Option String)) :
    let shown := (exchange r prompt s (lines.map Turn.piped)).1
    (Marked.errs shown).Aligned ∧
      ((Marked.outs shown).Aligned ↔ ¬ ListsHistory (Marked.optionsOf r p) s lines) := by
  have houts := Marked.aligned_outs hprompt
  have herrs := Marked.aligned_errs hprompt
  induction lines generalizing s with
  | nil =>
    refine ⟨herrs, iff_of_true houts ?_⟩
    rintro ⟨before, line, after, hlines, -⟩
    simp at hlines
  | cons line lines ih =>
    cases line with
    | none =>
      simp only [List.map_cons, exchange, Marked.take_piped_none, List.append_nil]
      refine ⟨herrs, iff_of_true houts ?_⟩
      rintro ⟨before, line, after, hlines, -⟩
      cases before <;> simp at hlines
    | some line =>
      have hstep := Marked.step_eq_toStep (Marked.optionsOf r p) s line
      have hgoes : (Marked.step r.groupDigits s line).goesOn = !ends line := by
        rw [← goesOn_step (Marked.optionsOf r p) s line, hstep]; rfl
      have hsession : (Marked.step r.groupDigits s line).session =
          (Repl.step (Marked.optionsOf r p) s line).session := by
        rw [hstep]; rfl
      obtain ⟨hstepErrs, hstepOuts⟩ := Marked.aligned_step_iff r.groupDigits s line
      obtain ⟨hrestErrs, hrestOuts⟩ := ih (Repl.step (Marked.optionsOf r p) s line).session
      rw [listsHistory_cons]
      simp only [List.map_cons, exchange, Marked.take_piped_some, hgoes, hsession]
      cases hends : ends line with
      | true =>
        simp only [Bool.not_true, Bool.false_eq_true, if_false, Marked.aligned_errs_append,
          Marked.aligned_outs_append]
        exact ⟨⟨herrs, hstepErrs⟩, by simp [houts, hstepOuts]⟩
      | false =>
        simp only [Bool.not_false, if_true, Marked.aligned_errs_append, Marked.aligned_outs_append]
        exact ⟨⟨⟨herrs, hstepErrs⟩, hrestErrs⟩, by simp [houts, hstepOuts, hrestOuts]⟩

theorem aligned_warning (message : String) : (warning message).Aligned := by
  simp [warning, Marked.Aligned, Markup.labelled]

theorem aligned_historyTrouble (historyPath : Option String) (t : FileTree) :
    ∀ e ∈ answer (historyTrouble historyPath) t, e.Aligned := by
  rcases historyTrouble_cases t historyPath with h | ⟨path, e, -, -, h⟩
  · rw [h]
    exact List.forall_mem_nil _
  · rw [h]
    exact List.forall_mem_singleton.mpr (aligned_warning _)

theorem aligned_directoryTrouble (historyPath : Option String) (t : FileTree) :
    ∀ e ∈ answer (directoryTrouble historyPath) t, e.Aligned := by
  rcases directoryTrouble_cases t historyPath with h | ⟨path, parent, e, -, -, -, h⟩
  · rw [h]
    exact List.forall_mem_nil _
  · rw [h]
    exact List.forall_mem_singleton.mpr (aligned_warning _)

theorem aligned_keepingTrouble (historyPath kept : Option String) (t : FileTree) :
    ∀ e ∈ answer (keepingTrouble historyPath kept) t, e.Aligned := by
  rcases keepingTrouble_cases t historyPath kept with h | ⟨path, contents, e, -, -, -, h⟩
  · rw [h]
    exact List.forall_mem_nil _
  · rw [h]
    exact List.forall_mem_singleton.mpr (aligned_warning _)

theorem aligned_prompting (here : Surroundings) (settings : Settings) :
    ∀ e ∈ prompting here settings, e.Aligned := by
  unfold prompting
  split
  · exact List.forall_mem_singleton.mpr (by simp [Marked.Aligned, Markup.prompt])
  · exact List.forall_mem_nil _

section Statements

variable (here : Surroundings) (settings : Settings) (target : Option String)
  (lines : List (Option String)) (b : Board)

/-- A conversation over lines that are piped in shows what is said in it, and around that nothing
but texts that are aligned. -/
theorem exists_shown_report_piped :
    ∃ before after, (∀ e ∈ before, e.Aligned) ∧ (∀ e ∈ after, e.Aligned) ∧
      (stateAfter (report here settings target lines .repl) b).shown =
        b.shown ++ Marked.opening (openSession settings target) ++ before ++
          (exchange settings.repl (prompting here settings) (openSession settings target)
            (lines.map Turn.piped)).1 ++ after := by
  obtain ⟨before, after, ⟨t, hbefore⟩, hafter, hshown⟩ :=
    exists_shown_report_repl here settings target (rfl : (Editor.piped lines).refusal = none) b
  refine ⟨before, after, ?_, ?_, hshown⟩
  · rw [hbefore]
    exact aligned_historyTrouble (historyFile here settings) t
  · rcases hafter with hafter | ⟨u, v, hafter⟩
    · rw [hafter]
      exact List.forall_mem_nil _
    · rw [hafter]
      exact List.forall_mem_append.mpr ⟨aligned_directoryTrouble (historyFile here settings) u,
        aligned_keepingTrouble (historyFile here settings) _ v⟩

/-- **Colours only dress what is shown.**  Hold a conversation over any lines, with any settings.

* There is a board, the same for all palettes, such that the conversation writes in the colours of
  each palette what is shown on the board, and leaves the same files and the same exit code.
* Without the escape sequences of the palette, the coloured standard error output is the one
  without colours.
* The same holds of the standard output if and only if the conversation does not list a history that
  is not empty.
* Settings, options and the environment choose no more than the palette of such a conversation. -/
theorem colours_only_dress (files : FileTree) :
    let o : Repl.Options := { palette := ⟨false⟩, groupDigits := settings.repl.groupDigits }
    let reported := report here settings target lines .repl
    let board := stateAfter reported { files }
    let outs := Marked.outs board.shown
    let errs := Marked.errs board.shown
    (∀ p, (hold here settings target p lines : StateM Machine UInt32).run { files } =
        (answer reported { files },
          { files := board.files, stdout := outs.written p, stderr := errs.written p })) ∧
      errs.bare = errs.written ⟨false⟩ ∧
      (outs.bare = outs.written ⟨false⟩ ↔ ¬ ListsHistory o (openSession settings target) lines) ∧
      ∀ args options, Arguments.request args = .run options .repl →
        answer (loadSettings here options.config) ({ files } : Machine) = .ok (settings, target) →
          Machine.run { files } here args lines =
            (hold here settings target (paletteOf here options settings) lines :
              StateM Machine UInt32).run { files } := by
  intro o reported board outs errs
  obtain ⟨before, after, hbefore, hafter, hshown⟩ :=
    exists_shown_report_piped here settings target lines { files }
  obtain ⟨hexchangeErrs, hexchangeOuts⟩ := aligned_exchange_iff settings.repl ⟨false⟩
    (aligned_prompting here settings) (openSession settings target) lines
  have houts : outs = Marked.outs (_ ++ after) := congrArg Marked.outs hshown
  have herrs : errs = Marked.errs (_ ++ after) := congrArg Marked.errs hshown
  have hopening := Marked.aligned_opening (openSession settings target)
  refine ⟨fun p => run_obey here settings target p lines .repl files, ?_, ?_,
    fun args options hrequest hload => run_of_loaded hrequest hload lines⟩
  · rw [Markup.bare_eq_written_iff, herrs]
    simp only [Marked.aligned_errs_append]
    exact ⟨⟨⟨⟨trivial, Marked.aligned_errs hopening⟩, Marked.aligned_errs hbefore⟩, hexchangeErrs⟩,
      Marked.aligned_errs hafter⟩
  · rw [Markup.bare_eq_written_iff, houts]
    refine Iff.trans ?_ hexchangeOuts
    simp only [Marked.aligned_outs_append]
    exact ⟨fun h => h.1.2, fun h => ⟨⟨⟨⟨trivial, Marked.aligned_outs hopening⟩,
      Marked.aligned_outs hbefore⟩, h⟩, Marked.aligned_outs hafter⟩⟩

end Statements

section Examples

/-- An empty working directory. -/
private def emptied : Machine :=
  { files := { workingDirectory := ["work"], nodes := [(["work"], none)] } }

private def listing : List (Option String) := [some "1", some ":history"]

/-- A history with one entry is listed, and it is not what it is without colours. -/
theorem colours_only_dress_listing :
    answer (loadSettings {} none) emptied = .ok ({}, none) ∧
      let board := stateAfter (report {} {} none listing .repl) { files := emptied.files }
      let outs := Marked.outs board.shown
      (emptied.run {} ["repl"] listing).2.stdout = outs.written ⟨true⟩ ∧
        outs.bare ≠ outs.written ⟨false⟩ := by
  have hload : answer (loadSettings {} none) emptied = .ok ({}, none) := by decide +kernel
  obtain ⟨hdrawn, -, houts, hrun⟩ := colours_only_dress {} {} none listing emptied.files
  refine ⟨hload, ?_, fun heq => houts.mp heq ⟨["1"], ":history", [], rfl, ?_, ?_, ?_⟩⟩
  · have hrepl := hrun ["repl"] {} (by decide +kernel) hload
    exact congrArg (fun r => r.2.stdout) (hrepl.trans (hdrawn ⟨true⟩))
  · decide +kernel
  · decide +kernel
  · decide +kernel

end Examples

/-! ## Colours that are not wanted -/

/-- **`--no-color` counts once the settings are known.**  Let a request with this option be made on
a machine that has shown nothing yet, and whatever the editor does.

* If its settings are found, all that it writes comes from a board that knows of no palette, on
  which every palette could have drawn, and the one that draws is switched off.  So if none of the
  texts that the command is given has an escape character, there is none in the standard error
  output, and in the standard output there are those that the editor writes on its own.
* If the settings cannot be read, or are no settings, all that is written is a message.  Whether it
  is in colours is up to the environment alone.

The version is written plainly, whatever options stand before. -/
theorem noColor_after_settings (files : FileTree) (here : Surroundings) (editor : Editor) :
    (∀ args options command, Arguments.request args = .run options command →
      options.noColor = true →
      (∀ settings target,
        answer (loadSettings here options.config) ({ files } : Machine) = .ok (settings, target) →
        let reported := report here settings target editor command
        let board := stateAfter reported { files }
        let ran := Machine.run { files } here args editor
        (∀ p, (obey here settings target p editor command : StateM Machine UInt32).run { files } =
            (answer reported { files }, board.drawn p)) ∧
          ran = (answer reported { files }, board.drawn ⟨false⟩) ∧
          ((∀ text ∈ given here settings target editor command, Text.EscapeFree text) →
            Text.EscapeFree ran.2.stderr ∧
              ∃ owns, owns <+: owned editor command ∧
                Text.escapes ran.2.stdout = Text.escapes (String.join owns))) ∧
      ∀ fault, answer (loadSettings here options.config) ({ files } : Machine) = .error fault →
        let message := Markup.complaint "error:" (.text fault.message)
        Machine.run { files } here args editor =
          (1, { files, stderr := message.written ⟨!here.noColor⟩ })) ∧
    ∀ args, Arguments.request args = .version →
      Machine.run { files } here args editor = (0, { files, stdout := "zappac 0.3.0\n" }) := by
  refine ⟨fun args options command hrequest hno => ⟨fun settings target hload => ?_,
    fun fault hload => ?_⟩, fun args hrequest => ?_⟩
  · intro reported board ran
    have hpalette : paletteOf here options settings = ⟨false⟩ := by
      simp [paletteOf, hno]
    have hran : ran = (answer reported { files }, board.drawn ⟨false⟩) := by
      simp only [ran, run_of_loaded hrequest hload, hpalette, run_obey]
      rfl
    refine ⟨fun p => run_obey here settings target p editor command files, hran,
      fun hgiven => ?_⟩
    obtain ⟨owns, hprefix, hplain⟩ := clean_report here settings target hgiven files
    rw [hran]
    exact ⟨hplain.escapeFree_errs, owns, hprefix, hplain.escapes_outs⟩
  · rw [run_of_fault hrequest hload, String.empty_append]
  · rw [run_of_version hrequest, String.empty_append]
    rfl

section Examples

/-- A working directory with settings that are none. -/
private def unsound : FileTree where
  workingDirectory := ["work"]
  nodes := [(["work"], none), (["work", "zappac.toml"], some "[repl]\ncolor = 3\n")]

/-- A terminal on which the cursor is moved while a line is typed, and then nothing can be read. -/
private def typed : Editor where
  turns :=
    [{ displays := [.prompt, .own "\x1b[8G", .line "1 / 0", .suggestion "1 / 2" 5]
       reply := .line "1 / 0" },
      { reply := .failed "Input/output error (os error 5)" }]

/-- A result and a fault in an input are written plainly, and a fault of the settings is not.  In a
conversation, nothing is coloured either, but the editor moves the cursor. -/
theorem noColor_after_settings_unsound :
    (Machine.run { files := emptied.files } {} ["--no-color", "eval", "1"] {}).2.stdout = "1\n" ∧
      (Machine.run { files := emptied.files } {} ["eval", "1 +", "--no-color"] {}).2.stderr =
        "error: 1 +: unexpected end of input at position 3; expected expression\n" ∧
      (Machine.run { files := unsound } { directory := some "/work" }
          ["--no-color", "eval", "1"] {}).2.stderr =
        "\x1b[31merror:\x1b[0m invalid toml in '/work/zappac.toml'\n" ∧
      let ran := Machine.run { files := emptied.files } {} ["--no-color", "repl"] typed
      Text.EscapeFree ran.2.stderr ∧
        ∃ owns, owns <+: ["\x1b[8G"] ∧
          Text.escapes ran.2.stdout = Text.escapes (String.join owns) := by
  have hload : answer (loadSettings {} none) ({ files := emptied.files } : Machine) =
      .ok ({}, none) := by decide +kernel
  have hfault : answer (loadSettings { directory := some "/work" } none)
      ({ files := unsound } : Machine) = .error (.parse "/work/zappac.toml") := by decide +kernel
  have hrequest : Arguments.request ["--no-color", "eval", "1"] =
      .run { noColor := true } (.eval ["1"]) := by decide +kernel
  have hrequest' : Arguments.request ["eval", "1 +", "--no-color"] =
      .run { noColor := true } (.eval ["1 +"]) := by decide +kernel
  have hrequest'' : Arguments.request ["--no-color", "repl"] =
      .run { noColor := true } .repl := by decide +kernel
  have hgiven : ∀ text ∈ given {} {} none typed .repl, Text.EscapeFree text := by decide +kernel
  have hempty := (noColor_after_settings emptied.files {} {}).1
  have hunsound := (noColor_after_settings unsound { directory := some "/work" } {}).1
  obtain ⟨-, hresult, -⟩ := (hempty _ _ _ hrequest rfl).1 _ _ hload
  obtain ⟨-, hmessage, -⟩ := (hempty _ _ _ hrequest' rfl).1 _ _ hload
  have hrun := (hunsound _ _ _ hrequest rfl).2 _ hfault
  obtain ⟨-, -, hescapes⟩ :=
    ((noColor_after_settings emptied.files {} typed).1 _ _ _ hrequest'' rfl).1 _ _ hload
  rw [hresult, hmessage, hrun]
  exact ⟨by decide +kernel, by decide +kernel, by decide +kernel, hescapes hgiven⟩

end Examples

end Abacus.App
