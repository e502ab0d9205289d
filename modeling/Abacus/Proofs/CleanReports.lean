import Abacus.Proofs.Boards
import Abacus.Proofs.CleanTurns

/-!
# Reports without escape sequences

What a command shows is put together from texts of the program itself, from what the session shows,
from reasons for which files could not be used, and from texts that the command is given: lines and
inputs, the prompt and the path of the line history, and the names in the seed.  Of all these, only
the last can have an escape character (`clean_report`).

The editor writes texts of its own among the others.  They are not reported as free of escape
characters, but accounted for: without colours, the standard output has as many escape characters as
they have.
-/

namespace Abacus

/-! ## Reasons of the file system -/

/-- Whatever goes wrong, it is said without an escape character. -/
def PlainlyFails {α : Type} (x : Except FileError α) : Prop :=
  ∀ e, x = .error e → Text.EscapeFree e.message

theorem plainlyFails_ok {α : Type} (a : α) : PlainlyFails (.ok a) := nofun

theorem plainlyFails_error {α : Type} {e : FileError} (h : Text.EscapeFree e.message) :
    PlainlyFails (.error e : Except FileError α) := fun _ he => Except.error.inj he ▸ h

theorem PlainlyFails.of_error {α β : Type} {x : Except FileError α} (h : PlainlyFails x)
    {e : FileError} (hx : x = .error e) : PlainlyFails (.error e : Except FileError β) :=
  plainlyFails_error (h e hx)

namespace FileTree

variable {t : FileTree}

theorem plainlyFails_follow (start : Place) (names : List (List Char)) :
    PlainlyFails (t.follow start names) := by
  induction names generalizing start with
  | nil => exact plainlyFails_ok _
  | cons name names ih =>
    rw [follow]
    split
    · exact plainlyFails_error (by decide)
    · exact plainlyFails_error (by decide)
    · split
      · exact ih _
      · split
        · exact ih _
        · split
          · exact plainlyFails_error (by decide)
          · exact ih _

theorem plainlyFails_place (path : String) : PlainlyFails (t.place path) := by
  unfold place
  split
  · exact plainlyFails_error (by decide)
  · split
    · exact plainlyFails_error (by decide)
    · split
      · exact plainlyFails_error (by decide)
      · exact plainlyFails_follow _ _

theorem plainlyFails_read (path : String) : PlainlyFails (t.read path) := by
  unfold read
  split
  next hplace => exact (plainlyFails_place path).of_error hplace
  next =>
    split
    · exact plainlyFails_error (by decide)
    · exact plainlyFails_error (by decide)
    · exact plainlyFails_ok _

theorem plainlyFails_write (path contents : String) : PlainlyFails (t.write path contents) := by
  unfold write
  split
  next hplace => exact (plainlyFails_place path).of_error hplace
  next =>
    split
    · exact plainlyFails_error (by decide)
    · exact plainlyFails_ok _

theorem plainlyFails_makeDirectory (path : String) : PlainlyFails (t.makeDirectory path) := by
  unfold makeDirectory
  dsimp only
  split
  next hplace =>
    split
    · exact plainlyFails_error (by decide)
    · exact (plainlyFails_place _).of_error hplace
  next =>
    split
    · exact plainlyFails_error (by decide)
    · exact plainlyFails_ok _

theorem plainlyFails_change {f : FileTree → Except FileError FileTree}
    (h : PlainlyFails (f t)) : PlainlyFails (answer (change f) t) := by
  rw [answer_change]
  cases hf : f t with
  | ok t' => exact plainlyFails_ok _
  | error e => exact h.of_error hf

theorem plainlyFails_ensureDirectory (path : String) :
    PlainlyFails (answer (Files.ensureDirectory path) t) := by
  have hmade : PlainlyFails (answer (Files.makeDirectory path) t) :=
    plainlyFails_change (plainlyFails_makeDirectory path)
  unfold Files.ensureDirectory
  rw [answer_bind]
  split
  · exact plainlyFails_ok _
  next e he =>
    rw [answer_bind]
    split
    · exact plainlyFails_ok _
    · exact plainlyFails_error (hmade e he)

theorem plainlyFails_makeDirectoriesIn (paths : List String) :
    PlainlyFails (answer (Files.makeDirectoriesIn paths) t) := by
  induction paths generalizing t with
  | nil => exact plainlyFails_error (by decide)
  | cons path parents ih =>
    unfold Files.makeDirectoriesIn
    split
    · exact plainlyFails_ok _
    · rw [answer_bind]
      split
      · rw [answer_bind]
        split
        · exact plainlyFails_ensureDirectory path
        next e he => exact plainlyFails_error (ih e he)
      · rw [answer_pure]
        exact plainlyFails_ensureDirectory path

end FileTree

/-- A parent consists of the beginning of its path, or of nothing but the root. -/
theorem Path.escapeFree_of_parent {path parent : String} (h : Path.parent? path = some parent)
    (hpath : Text.EscapeFree path) : Text.EscapeFree parent := by
  rcases Path.parent?_spec h with ⟨rfl, -⟩ | ⟨rfl, -⟩ | ⟨-, -, cs, hcs⟩
  · decide
  · decide
  · refine hpath.of_subset ?_
    rw [hcs]
    exact List.subset_append_left _ _

namespace App

open Console

/-! ## What is said about files -/

section Files

variable {t : FileTree}

theorem escapeFree_warning {message : String} (h : Text.EscapeFree message) :
    (warning message).EscapeFree := by
  simp +decide [warning, Marked.EscapeFree, Markup.labelled, h]

theorem escapeFree_historyTrouble {historyPath : Option String}
    (h : ∀ path ∈ historyPath, Text.EscapeFree path) :
    ∀ e ∈ answer (historyTrouble historyPath) t, e.EscapeFree := by
  rcases historyTrouble_cases t historyPath with hsaid | ⟨path, e, hpath, he, hsaid⟩
  · rw [hsaid]
    exact List.forall_mem_nil _
  · have hmessage := FileTree.plainlyFails_read path e he
    rw [hsaid]
    refine List.forall_mem_singleton.mpr (escapeFree_warning ?_)
    simp +decide [h path hpath, hmessage]

theorem escapeFree_directoryTrouble {historyPath : Option String}
    (h : ∀ path ∈ historyPath, Text.EscapeFree path) :
    ∀ e ∈ answer (directoryTrouble historyPath) t, e.EscapeFree := by
  rcases directoryTrouble_cases t historyPath with
    hsaid | ⟨path, parent, e, hpath, hparent, he, hsaid⟩
  · rw [hsaid]
    exact List.forall_mem_nil _
  · have hfree := Path.escapeFree_of_parent hparent (h path hpath)
    have hmessage := FileTree.plainlyFails_makeDirectoriesIn _ e he
    rw [hsaid]
    refine List.forall_mem_singleton.mpr (escapeFree_warning ?_)
    simp +decide [hfree, hmessage]

theorem escapeFree_keepingTrouble {historyPath : Option String}
    (h : ∀ path ∈ historyPath, Text.EscapeFree path) (kept : Option String) :
    ∀ e ∈ answer (keepingTrouble historyPath kept) t, e.EscapeFree := by
  rcases keepingTrouble_cases t historyPath kept with
    hsaid | ⟨path, contents, e, hpath, -, he, hsaid⟩
  · rw [hsaid]
    exact List.forall_mem_nil _
  · have hmessage := FileTree.plainlyFails_change (FileTree.plainlyFails_write path contents) e he
    rw [hsaid]
    refine List.forall_mem_singleton.mpr (escapeFree_warning ?_)
    simp +decide [h path hpath, hmessage]

theorem escapeFree_settingsMade : ∀ e ∈ (answer settingsMade t).1, e.EscapeFree := by
  unfold settingsMade
  rw [answer_bind]
  split
  · exact List.forall_mem_singleton.mpr (Marked.escapeFree_complaint (by decide) (by decide))
  · rw [answer_bind]
    split
    next e he =>
      have hmessage := FileTree.plainlyFails_change (FileTree.plainlyFails_write _ _) e he
      refine List.forall_mem_singleton.mpr (Marked.escapeFree_complaint (by decide) ?_)
      simp +decide [hmessage]
    · exact List.forall_mem_singleton.mpr (by simp +decide [Marked.EscapeFree])

end Files

/-! ## Inputs -/

/-- The run lemma for an evaluation.  A message may quote an input, a result never does. -/
theorem escapeFree_evaluation (s : Calculator String) {inputs : List String}
    (h : ∀ input ∈ inputs, Text.EscapeFree input) :
    ∀ e ∈ (evaluation s inputs).1, e.EscapeFree := by
  induction inputs generalizing s with
  | nil => exact List.forall_mem_nil _
  | cons input inputs ih =>
    obtain ⟨hinput, hinputs⟩ := List.forall_mem_cons.mp h
    obtain ⟨hresult, hmessage⟩ := s.escapeFree_exec input true
    unfold evaluation
    dsimp only
    split
    next hok =>
      simp only [List.forall_mem_append, List.forall_mem_cons]
      refine ⟨Marked.escapeFree_storing _, ?_, ih _ hinputs⟩
      simp +decide [Marked.EscapeFree, hresult hok]
    next =>
      simp only [List.forall_mem_append]
      refine ⟨Marked.escapeFree_storing _, List.forall_mem_singleton.mpr ?_⟩
      have hfault : Text.EscapeFree
          ((s.exec input true).session.record.lastError.getD "evaluation failed") := by
        cases hlast : (s.exec input true).session.record.lastError with
        | none => decide
        | some message => exact hmessage hinput message hlast
      refine (Markup.escapeFree_complaint (by decide)).mpr ?_
      simp +decide [hinput, hfault]

theorem escapeFree_tokensShown {input : String} (h : Text.EscapeFree input) :
    ∀ e ∈ (tokensShown input).1, e.EscapeFree := by
  unfold tokensShown
  split
  next ts _ =>
    have htokens : ∀ v ∈ ts.map Repl.tokenJson, v.EscapeFree := by
      refine List.forall_mem_map.mpr fun t _ => Json.escapeFree_object ?_
      simp [Json.escapeFree_string, Json.escapeFree_ofNat]
    refine List.forall_mem_singleton.mpr ?_
    simp +decide [Marked.EscapeFree, (Json.escapeFree_array htokens).pretty]
  next e he =>
    exact List.forall_mem_singleton.mpr
      (Marked.escapeFree_complaint (by decide) (Calculator.escapeFree_of_parse he h))

/-! ## Conversations -/

theorem escapeFree_prompting (here : Surroundings) {settings : Settings}
    (h : Text.EscapeFree settings.repl.prompt) :
    ∀ e ∈ prompting here settings, e.EscapeFree := by
  unfold prompting
  split
  · refine List.forall_mem_singleton.mpr ?_
    simp +decide [Marked.EscapeFree, Markup.prompt, h]
  · exact List.forall_mem_nil _

/-- The run lemma.  What is shown in a conversation has no escape character, but for what the editor
writes on its own in the turns up to the last one. -/
theorem exists_plainBut_exchange {r : ReplSettings} (hr : Text.EscapeFree r.prompt)
    {prompt : List (Marked String)} (hprompt : ∀ e ∈ prompt, e.EscapeFree)
    {s : Calculator String} (hs : s.Clean) {turns : List Turn}
    (hturns : ∀ text ∈ turns.flatMap Turn.given, Text.EscapeFree text) :
    ∃ owns, owns <+: turns.flatMap Turn.owns ∧
      Marked.PlainBut owns (exchange r prompt s turns).1 := by
  induction turns generalizing s with
  | nil => exact ⟨[], List.nil_prefix, .of_escapeFree hprompt⟩
  | cons turn turns ih =>
    rw [List.flatMap_cons, List.forall_mem_append] at hturns
    obtain ⟨hsession, htaken⟩ := Marked.clean_take hr hs hturns.1
    have hturn : Marked.PlainBut turn.owns (prompt ++ (Marked.take r s turn).events) :=
      Marked.PlainBut.append (.of_escapeFree hprompt) htaken
    rw [exchange]
    dsimp only
    split
    · obtain ⟨owns, hprefix, hrest⟩ := ih hsession hturns.2
      exact ⟨turn.owns ++ owns, (List.prefix_append_right_inj _).mpr hprefix, hturn.append hrest⟩
    · exact ⟨turn.owns, List.prefix_append _ _, hturn⟩
    · exact ⟨turn.owns, List.prefix_append _ _, hturn⟩

/-! ## Commands -/

/-- The texts that a command is given: by whoever runs the program, by the settings and the seed in
them, and by the editor. -/
def given (here : Surroundings) (settings : Settings) (target : Option String) (editor : Editor) :
    Command → List String
  | .repl =>
      settings.repl.prompt :: (historyFile here settings).toList ++
        (openSession settings target).environment.names ++ editor.refusal.toList ++
          editor.turns.flatMap Turn.given
  | .eval inputs => inputs
  | .parse input => [input]
  | .init => []

/-- The texts that the editor writes on its own while a command is obeyed. -/
def owned (editor : Editor) : Command → List String
  | .repl => editor.turns.flatMap Turn.owns
  | .eval _ | .parse _ | .init => []

/-- **A report has no escape characters**, but for what the editor writes on its own, if there are
none in what the command is given. -/
theorem clean_report (here : Surroundings) (settings : Settings) (target : Option String)
    {editor : Editor} {command : Command}
    (hgiven : ∀ text ∈ given here settings target editor command, Text.EscapeFree text)
    (files : FileTree) :
    ∃ owns, owns <+: owned editor command ∧
      Marked.PlainBut owns
        (stateAfter (report here settings target editor command) { files }).shown := by
  cases command with
  | repl =>
    simp only [given, List.forall_mem_append, List.forall_mem_cons, Option.mem_toList] at hgiven
    obtain ⟨⟨⟨⟨hprompt, hpath⟩, hnames⟩, hrefusal⟩, hturns⟩ := hgiven
    have hopening := Marked.escapeFree_opening hnames
    cases hrefused : editor.refusal with
    | some message =>
      have hmessage : (Marked.complaint "error:" message : Marked String).EscapeFree :=
        Marked.escapeFree_complaint (by decide) (hrefusal message hrefused)
      refine ⟨[], List.nil_prefix, .of_escapeFree ?_⟩
      simp only [report, hrefused, stateAfter_bind, Board.stateAfter_put, stateAfter_pure]
      exact List.forall_mem_append.mpr ⟨hopening, List.forall_mem_singleton.mpr hmessage⟩
    | none =>
      obtain ⟨before, after, ⟨t, hbefore⟩, hafter, hshown⟩ :=
        exists_shown_report_repl here settings target hrefused { files }
      have hfirst : ∀ e ∈ before, e.EscapeFree := by
        rw [hbefore]
        exact escapeFree_historyTrouble hpath
      have hlast : ∀ e ∈ after, e.EscapeFree := by
        rcases hafter with hafter | ⟨u, v, hafter⟩
        · rw [hafter]
          exact List.forall_mem_nil _
        · rw [hafter]
          exact List.forall_mem_append.mpr ⟨escapeFree_directoryTrouble hpath,
            escapeFree_keepingTrouble hpath editor.kept⟩
      have hclean : (openSession settings target).Clean := Calculator.clean_of_names rfl hnames
      obtain ⟨owns, hprefix, hexchange⟩ := exists_plainBut_exchange hprompt
        (escapeFree_prompting here hprompt) hclean hturns
      refine ⟨owns, hprefix, ?_⟩
      rw [hshown]
      refine Marked.PlainBut.append_escapeFree ?_ hlast
      exact Marked.PlainBut.append (.of_escapeFree
        (List.forall_mem_append.mpr ⟨hopening, hfirst⟩)) hexchange
  | eval inputs =>
    exact ⟨[], List.nil_prefix, .of_escapeFree (escapeFree_evaluation _ hgiven)⟩
  | parse input =>
    have hinput := hgiven input (List.mem_singleton.mpr rfl)
    exact ⟨[], List.nil_prefix, .of_escapeFree (escapeFree_tokensShown hinput)⟩
  | init => exact ⟨[], List.nil_prefix, .of_escapeFree escapeFree_settingsMade⟩

end App

end Abacus
