import Abacus.Proofs.FilesAlone
import Abacus.Proofs.NextStart
import Abacus.Proofs.Reports

/-!
# Boards

How the program shows something depends on the palette, and what it shows does not.  A *board* is a
machine on which the events are kept as they are marked, instead of being written to two outputs.
`report` is what the program does on a board, so it knows of no palette, and `Board.drawn` is the
machine on which everything on the board has been written in the colours of one.

`Draws` relates what happens on the machine to what happens on the board.  It is kept by putting
steps after one another (`Draws.bind`), so it is shown for the steps first and then for the commands
(`draws_report`): a command does on the machine, in whatever palette, what its report says.
-/

namespace Abacus.App

open Console

namespace Machine

theorem onFiles_historyTrouble (historyPath : Option String) :
    onFiles (historyTrouble historyPath) = historyTrouble historyPath := by
  cases historyPath with
  | none => rfl
  | some path =>
    unfold historyTrouble
    dsimp only
    rw [onFiles_bind, onFiles_isPresent]
    refine bind_congr fun found => ?_
    split
    · rw [onFiles_bind]
      refine bind_congr fun contents => ?_
      cases contents <;> rfl
    · rfl

theorem onFiles_directoryTrouble (historyPath : Option String) :
    onFiles (directoryTrouble historyPath) = directoryTrouble historyPath := by
  unfold directoryTrouble
  cases historyPath.bind Path.parent? with
  | none => rfl
  | some parent =>
    by_cases hparent : parent.isEmpty = true
    · simp only [hparent, if_true, pure_bind]
      rfl
    · simp only [if_neg hparent]
      rw [onFiles_bind, onFiles_makeDirectories]
      refine bind_congr fun made => ?_
      cases made <;> rfl

theorem onFiles_keepingTrouble (historyPath kept : Option String) :
    onFiles (keepingTrouble historyPath kept) = keepingTrouble historyPath kept := by
  unfold keepingTrouble
  cases historyPath with
  | none => rfl
  | some path =>
    cases kept with
    | none => rfl
    | some contents =>
      dsimp only
      rw [onFiles_bind]
      refine bind_congr fun written => ?_
      cases written <;> rfl

theorem onFiles_settingsMade : onFiles settingsMade = settingsMade := by
  unfold settingsMade
  rw [onFiles_bind, onFiles_isPresent]
  refine bind_congr fun found => ?_
  split
  · rfl
  · rw [onFiles_bind]
    refine bind_congr fun written => ?_
    cases written <;> rfl

end Machine

/-! ## What is said about files -/

section Warnings

variable (t : FileTree)

/-- Nothing is said about the line history, or it is there and cannot be read. -/
theorem historyTrouble_cases (historyPath : Option String) :
    answer (historyTrouble historyPath) t = [] ∨
      ∃ path e, historyPath = some path ∧ t.read path = .error e ∧
        answer (historyTrouble historyPath) t =
          [warning ("failed to load history from " ++ path ++ ": " ++ e.message)] := by
  unfold historyTrouble
  cases historyPath with
  | none => exact .inl rfl
  | some path =>
    dsimp only
    rw [answer_bind, LawfulFiles.stateAfter_isPresent]
    split
    · rw [answer_bind]
      split
      next => exact .inl rfl
      next e he => exact .inr ⟨path, e, rfl, he, rfl⟩
    · exact .inl rfl

/-- Nothing is said about the directory of the line history, or it cannot be made. -/
theorem directoryTrouble_cases (historyPath : Option String) :
    answer (directoryTrouble historyPath) t = [] ∨
      ∃ path parent e, historyPath = some path ∧ Path.parent? path = some parent ∧
        answer (Files.makeDirectories parent) t = .error e ∧
        answer (directoryTrouble historyPath) t =
          [warning ("failed to create history directory " ++ parent ++ ": " ++ e.message)] := by
  unfold directoryTrouble
  cases hparent : historyPath.bind Path.parent? with
  | none => exact .inl rfl
  | some parent =>
    obtain ⟨path, hpath, hparent⟩ := Option.bind_eq_some_iff.mp hparent
    by_cases hempty : parent.isEmpty = true
    · simp only [hempty, if_true, pure_bind]
      exact .inl rfl
    · simp only [if_neg hempty, answer_bind]
      split
      next => exact .inl rfl
      next e he => exact .inr ⟨path, parent, e, hpath, hparent, he, rfl⟩

/-- Nothing is said about keeping the lines, or there are some and they cannot be written. -/
theorem keepingTrouble_cases (historyPath kept : Option String) :
    answer (keepingTrouble historyPath kept) t = [] ∨
      ∃ path contents e, historyPath = some path ∧ kept = some contents ∧
        answer (Files.write path contents) t = .error e ∧
        answer (keepingTrouble historyPath kept) t =
          [warning ("failed to save history to " ++ path ++ ": " ++ e.message)] := by
  unfold keepingTrouble
  split
  next path contents =>
    rw [answer_bind]
    split
    next => exact .inl rfl
    next e he => exact .inr ⟨path, contents, e, rfl, rfl, he, rfl⟩
  next => exact .inl rfl

end Warnings

/-! ## Boards and machines -/

/-- Stores the snapshots among some events. -/
def storeAll : List (Marked String) → StateM FileTree Unit
  | [] => return ()
  | .store path snapshot :: es => do
      discard (Settings.store path snapshot)
      storeAll es
  | .out _ :: es => storeAll es
  | .err _ :: es => storeAll es

/-- A machine on which texts are kept as they are marked. -/
structure Board where
  files : FileTree
  /-- All events so far. -/
  shown : List (Marked String) := []

namespace Board

/-- An operation on the files. -/
def onFiles {α : Type} (act : StateM FileTree α) : StateM Board α := fun b =>
  let (a, files) := act.run b.files
  (a, { b with files })

/-- Carries out events. -/
def put (es : List (Marked String)) : StateM Board Unit := fun b =>
  ((), { files := stateAfter (storeAll es) b.files, shown := b.shown ++ es })

/-- The machine on which everything has been written in the colours of a palette. -/
def drawn (p : Palette) (b : Board) : Machine where
  files := b.files
  stdout := (Marked.outs b.shown).written p
  stderr := (Marked.errs b.shown).written p

@[simp] theorem answer_onFiles {α : Type} (act : StateM FileTree α) (b : Board) :
    answer (onFiles act) b = answer act b.files := rfl

@[simp] theorem stateAfter_onFiles {α : Type} (act : StateM FileTree α) (b : Board) :
    stateAfter (onFiles act) b = { b with files := stateAfter act b.files } := rfl

@[simp] theorem stateAfter_put (es : List (Marked String)) (b : Board) :
    stateAfter (put es) b =
      { files := stateAfter (storeAll es) b.files, shown := b.shown ++ es } := rfl

end Board

/-- What happens on the board, drawn in the colours of the palette, is what happens on the
machine. -/
def Draws {α : Type} (p : Palette) (x : StateM Machine α) (y : StateM Board α) : Prop :=
  ∀ b : Board, answer x (b.drawn p) = answer y b ∧
    stateAfter x (b.drawn p) = (stateAfter y b).drawn p

namespace Draws

variable {α β : Type} {p : Palette}

theorem pure (a : α) : Draws p (pure a) (pure a) := fun _ => ⟨rfl, rfl⟩

theorem bind {x : StateM Machine α} {y : StateM Board α} (h : Draws p x y)
    {f : α → StateM Machine β} {g : α → StateM Board β} (hfg : ∀ a, Draws p (f a) (g a)) :
    Draws p (x >>= f) (y >>= g) := by
  intro b
  obtain ⟨hanswer, hstate⟩ := h b
  simp only [answer_bind, stateAfter_bind, hanswer, hstate]
  exact hfg _ _

theorem onFiles (act : StateM FileTree α) : Draws p (Machine.onFiles act) (Board.onFiles act) :=
  fun _ => ⟨rfl, rfl⟩

theorem storing (path snapshot : String) :
    Draws p (storeSaved (some (path, snapshot)))
      (Board.onFiles (discard (Settings.store path snapshot))) := by
  have hstore : (storeSaved (some (path, snapshot)) : StateM Machine Unit) =
      Machine.onFiles (discard (Settings.store path snapshot)) :=
    calc (storeSaved (some (path, snapshot)) : StateM Machine Unit)
      _ = discard (Settings.store path snapshot) := rfl
      _ = discard (Machine.onFiles (Settings.store path snapshot)) := by
        rw [Machine.onFiles_store]
      _ = Machine.onFiles (discard (Settings.store path snapshot)) := rfl
  rw [hstore]
  exact onFiles _

theorem event (e : Marked String) : Draws p (perform (e.event p)) (Board.put [e]) := by
  intro b
  refine ⟨rfl, ?_⟩
  rw [Board.stateAfter_put, Board.drawn, Board.drawn, Marked.written_outs_append,
    Marked.written_errs_append]
  cases e with
  | out doc =>
    simp only [Marked.outs_out, Marked.outs_nil, Marked.errs_out, Marked.errs_nil,
      Markup.written_append, Markup.written_text, String.append_empty]
    rfl
  | err doc =>
    simp only [Marked.outs_err, Marked.outs_nil, Marked.errs_err, Marked.errs_nil,
      Markup.written_append, Markup.written_text, String.append_empty]
    rfl
  | store path snapshot =>
    simp only [Marked.outs_store, Marked.outs_nil, Marked.errs_store, Marked.errs_nil,
      Markup.written_text, String.append_empty]
    exact (storing path snapshot b).2

theorem put (es : List (Marked String)) : Draws p (present p es) (Board.put es) := by
  induction es with
  | nil =>
    intro b
    refine ⟨rfl, ?_⟩
    rw [Board.stateAfter_put, List.append_nil]
    rfl
  | cons e es ih =>
    -- On the board, too, events are carried out one after the other.
    have hput : Board.put (e :: es) = (do Board.put [e]; Board.put es) := by
      funext b
      have hshown : b.shown ++ e :: es = b.shown ++ [e] ++ es := List.append_cons _ _ _
      have hfiles : stateAfter (storeAll (e :: es)) b.files =
          stateAfter (storeAll es) (stateAfter (storeAll [e]) b.files) := by
        cases e <;> rfl
      rw [Board.put, hshown, hfiles]
      rfl
    rw [hput]
    exact bind (event e) fun _ => ih

end Draws

/-! ## The reports of commands -/

/-- What is shown and stored when a command is obeyed, and the exit code. -/
def report (here : Surroundings) (settings : Settings) (target : Option String)
    (editor : Editor) : Command → StateM Board UInt32
  | .repl => do
      let s := openSession settings target
      Board.put (Marked.opening s)
      match editor.refusal with
      | some message =>
          Board.put [Marked.complaint "error:" message]
          return 1
      | none =>
          let exchanged := exchange settings.repl (prompting here settings) s editor.turns
          Board.put (← Board.onFiles (historyTrouble (historyFile here settings)))
          Board.put exchanged.1
          if exchanged.2 then
            Board.put (← Board.onFiles (directoryTrouble (historyFile here settings)))
            Board.put (← Board.onFiles (keepingTrouble (historyFile here settings) editor.kept))
            return 0
          else return brokenOff
  | .eval inputs => do
      Board.put (evaluation (openSession settings target) inputs).1
      return (evaluation (openSession settings target) inputs).2
  | .parse input => do
      Board.put (tokensShown input).1
      return (tokensShown input).2
  | .init => do
      let (es, code) ← Board.onFiles settingsMade
      Board.put es
      return code

/-- Whatever the palette is, obeying a command is drawing its report. -/
theorem draws_report (here : Surroundings) (settings : Settings) (target : Option String)
    (p : Palette) (editor : Editor) (command : Command) :
    Draws p (obey here settings target p editor command)
      (report here settings target editor command) := by
  cases command with
  | repl =>
    rw [obey, hold_eq, report]
    refine .bind (.put _) fun _ => ?_
    cases editor.refusal with
    | some message => exact .bind (.put _) fun _ => .pure 1
    | none =>
      simp only [← Machine.onFiles_historyTrouble, ← Machine.onFiles_directoryTrouble,
        ← Machine.onFiles_keepingTrouble]
      refine .bind (.onFiles _) fun before => .bind (.put before) fun _ =>
        .bind (.put _) fun _ => ?_
      split
      · exact .bind (.onFiles _) fun made => .bind (.put made) fun _ => .bind (.onFiles _)
          fun kept => .bind (.put kept) fun _ => .pure 0
      · exact .pure brokenOff
  | eval inputs =>
    rw [obey, evalInputs_eq]
    exact .bind (.put _) fun _ => .pure _
  | parse input =>
    rw [obey, showTokens_eq]
    exact .bind (.put _) fun _ => .pure _
  | init =>
    rw [obey, makeSettings_eq, ← Machine.onFiles_settingsMade]
    exact .bind (.onFiles _) fun made => .bind (.put made.1) fun _ => .pure made.2

/-- What a command leaves on a machine that has shown nothing yet. -/
theorem run_obey (here : Surroundings) (settings : Settings) (target : Option String)
    (p : Palette) (editor : Editor) (command : Command) (files : FileTree) :
    (obey here settings target p editor command : StateM Machine UInt32).run { files } =
      (answer (report here settings target editor command) { files },
        (stateAfter (report here settings target editor command) { files }).drawn p) := by
  obtain ⟨hanswer, hstate⟩ := draws_report here settings target p editor command { files }
  exact Prod.ext hanswer hstate

/-- What a whole conversation shows: its opening, what is said in it, and what is said about files
before and after that. -/
theorem exists_shown_report_repl (here : Surroundings) (settings : Settings)
    (target : Option String) {editor : Editor} (h : editor.refusal = none) (b : Board) :
    ∃ before after,
      (∃ t : FileTree, before = answer (historyTrouble (historyFile here settings)) t) ∧
      (after = [] ∨ ∃ t u : FileTree,
        after = answer (directoryTrouble (historyFile here settings)) t ++
          answer (keepingTrouble (historyFile here settings) editor.kept) u) ∧
      (stateAfter (report here settings target editor .repl) b).shown =
        b.shown ++ Marked.opening (openSession settings target) ++ before ++
          (exchange settings.repl (prompting here settings) (openSession settings target)
            editor.turns).1 ++ after := by
  simp only [report, h, stateAfter_bind, Board.stateAfter_put, Board.answer_onFiles,
    Board.stateAfter_onFiles]
  split
  · simp only [stateAfter_bind, Board.stateAfter_put, Board.answer_onFiles,
      Board.stateAfter_onFiles, stateAfter_pure]
    exact ⟨_, _, ⟨_, rfl⟩, .inr ⟨_, _, rfl⟩, List.append_assoc ..⟩
  · exact ⟨_, [], ⟨_, rfl⟩, .inl rfl, (List.append_nil _).symm⟩

/-! ## The program -/

theorem stateAfter_load (path : String) (w : Machine) : stateAfter (Settings.load path) w = w := by
  unfold Settings.load
  rw [stateAfter_bind, LawfulFiles.stateAfter_read]
  split
  · rfl
  · split <;> rfl

/-- Finding out which settings count changes nothing. -/
theorem stateAfter_loadSettings (here : Surroundings) (explicit : Option String) (w : Machine) :
    stateAfter (loadSettings here explicit) w = w := by
  unfold loadSettings
  cases explicit with
  | some path =>
    dsimp only
    rw [stateAfter_bind, LawfulFiles.stateAfter_isPresent]
    split
    · rw [stateAfter_bind, stateAfter_load]
      split <;> rfl
    · rfl
  | none =>
    dsimp only
    unfold Settings.find
    rw [stateAfter_bind, (Machine.firstFile_eq _ w).2]
    split
    · rw [stateAfter_bind, stateAfter_load]
      split <;> rfl
    · rfl

section Requests

variable {args : List String} {options : Options} {command : Command} {here : Surroundings}
  {w : Machine}

/-- A request is made out, and then the settings are looked for. -/
theorem run_eq (h : Arguments.request args = .run options command) (editor : Editor) :
    w.run here args editor =
      (match answer (loadSettings here options.config) w with
        | .error fault => do
            present ⟨!here.noColor⟩ [Marked.complaint "error:" fault.message]
            return 1
        | .ok (settings, target) =>
            obey here settings target (paletteOf here options settings) editor command :
        StateM Machine UInt32).run w := by
  have hstate := stateAfter_loadSettings here options.config w
  rw [Machine.run, run_of_request h]
  exact congrArg (StateT.run _) hstate

/-- With its settings, a request is obeyed in the colours that they and the options allow. -/
theorem run_of_loaded (h : Arguments.request args = .run options command) {settings : Settings}
    {target : Option String}
    (hload : answer (loadSettings here options.config) w = .ok (settings, target))
    (editor : Editor) :
    w.run here args editor = (obey here settings target (paletteOf here options settings) editor
      command : StateM Machine UInt32).run w := by
  rw [run_eq h, hload]

/-- Without settings, there is nothing but a message. -/
theorem run_of_fault (h : Arguments.request args = .run options command) {fault : Settings.Fault}
    (hload : answer (loadSettings here options.config) w = .error fault)
    (editor : Editor) :
    w.run here args editor = (1, { w with
      stderr := w.stderr ++
        (Markup.complaint "error:" (.text fault.message)).written ⟨!here.noColor⟩ }) := by
  rw [run_eq h, hload]
  rfl

/-- The version is written plainly. -/
theorem run_of_version (h : Arguments.request args = .version) (editor : Editor) :
    w.run here args editor = (0, { w with stdout := w.stdout ++ (Repl.programName ++ "\n") }) := by
  rw [Machine.run, App.run, begin, h]
  rfl

end Requests

end Abacus.App
