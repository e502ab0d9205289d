import Abacus.Proofs.Evaluation
import Abacus.Proofs.MarkedTurns

/-!
# What the program shows

The commands once more, as far as they show something, with marked texts instead of texts in
colours.  The texts of an evaluation, of a list of tokens and of what is said in a conversation are
values (`evaluation`, `tokensShown`, `exchange`); what is said about files depends on these, so it
comes from operations on files (`historyTrouble`, `directoryTrouble`, `keepingTrouble`,
`settingsMade`).  None of them takes a palette.

On any host, a command carries out these events in the colours of its palette (`present`), in this
order and no others: `hold_eq`, `evalInputs_eq`, `showTokens_eq` and `makeSettings_eq`.  A request
is obeyed in one palette, and only a fault of the settings is reported in another
(`run_of_request`).
-/

namespace Abacus.App

open Console

/-! ## Warnings about files -/

section Warnings

variable {m : Type → Type} [Monad m] [Files m]

def warning (message : String) : Marked String :=
  .err (.labelled .yellow "warning:" (.text message))

/-- The warning about a line history that cannot be read, if there is one. -/
def historyTrouble (historyPath : Option String) : m (List (Marked String)) := do
  match historyPath with
  | some path =>
      if ← Files.isPresent path then
        match ← Files.read path with
        | .ok _ => return []
        | .error e => return [warning ("failed to load history from " ++ path ++ ": " ++ e.message)]
      else return []
  | none => return []

/-- Makes the directory of the history file, and gives the warning if that is not possible. -/
def directoryTrouble (historyPath : Option String) : m (List (Marked String)) := do
  match historyPath.bind Path.parent? with
  | some parent =>
      let made ← if parent.isEmpty then pure (.ok ()) else Files.makeDirectories parent
      match made with
      | .ok () => return []
      | .error e =>
          return [warning ("failed to create history directory " ++ parent ++ ": " ++ e.message)]
  | none => return []

/-- Writes the line history, and gives the warning if that is not possible. -/
def keepingTrouble (historyPath kept : Option String) : m (List (Marked String)) := do
  match historyPath, kept with
  | some path, some contents =>
      match ← Files.write path contents with
      | .ok () => return []
      | .error e => return [warning ("failed to save history to " ++ path ++ ": " ++ e.message)]
  | _, _ => return []

end Warnings

/-! ## A conversation -/

/-- The file of the line history. -/
def historyFile (here : Surroundings) (settings : Settings) : Option String :=
  historyPath? here.home (here.historyPath.or settings.repl.historyPath)

/-- What is shown where a line is to be entered. -/
def prompting (here : Surroundings) (settings : Settings) : List (Marked String) :=
  if here.simpleTerminal then [.out (.prompt settings.repl.prompt)] else []

/-- What is shown in a conversation once it has been opened, and whether it came to an end. -/
def exchange (r : ReplSettings) (prompt : List (Marked String)) (s : Calculator String) :
    List Turn → List (Marked String) × Bool
  | [] => (prompt, true)
  | turn :: turns =>
      let taken := Marked.take r s turn
      match taken.course with
      | .goesOn =>
          let (rest, ended) := exchange r prompt taken.session turns
          (prompt ++ taken.events ++ rest, ended)
      | .over => (prompt ++ taken.events, true)
      | .broken => (prompt ++ taken.events, false)

/-! ## The other commands -/

/-- What the evaluation of inputs shows and stores, and the exit code. -/
def evaluation (s : Calculator String) : List String → List (Marked String) × UInt32
  | [] => ([], 0)
  | input :: inputs =>
      let outcome := s.exec input true
      let after := outcome.session
      if outcome.ok then
        let (rest, code) := evaluation after inputs
        (Marked.storing outcome.saved ++
          .out (.text after.record.lastResult ++ .text "\n") :: rest, code)
      else
        let message := after.record.lastError.getD "evaluation failed"
        (Marked.storing outcome.saved ++
          [.err (.complaint "error:" (.paint .bold (.text input) ++ .text ": " ++ .text message))],
          1)

/-- The tokens of an input, or what is wrong with it, and the exit code. -/
def tokensShown (input : String) : List (Marked String) × UInt32 :=
  match Calculator.parse input with
  | .ok ts => ([.out (.text (Json.array (ts.map Repl.tokenJson)).pretty ++ .text "\n")], 0)
  | .error e => ([Marked.complaint "syntax error:" e.message], 1)

/-- Makes a settings file, and gives what is shown and the exit code. -/
def settingsMade {m : Type → Type} [Monad m] [Files m] : m (List (Marked String) × UInt32) := do
  if ← Files.isPresent Settings.fileName then
    let message := Settings.fileName ++ " already exists, not overwriting"
    return ([Marked.complaint "error:" message], 1)
  match ← Files.write Settings.fileName Settings.template with
  | .error e =>
      return ([Marked.complaint "error:" ("writing " ++ Settings.fileName ++ ": " ++ e.message)], 1)
  | .ok () =>
      return ([.out (.paint .label (.text (Text.padLeft 12 "Created")) ++ .text " " ++
        .text Settings.fileName ++ .text "\n")], 0)

/-! ## On any host -/

section Hosts

variable {m : Type → Type} [Monad m] [Host m]

/-- Carries out events in the colours of a palette. -/
def present (p : Palette) (es : List (Marked String)) : m Unit :=
  performAll (es.map (Marked.event p))

/-- Holds a conversation, from its opening to the exit code. -/
def hold (here : Surroundings) (settings : Settings) (target : Option String) (p : Palette)
    (editor : Editor) : m UInt32 := do
  match ← approach here settings target p editor.refusal with
  | .done code => return code
  | .conversation c => do
      if ← converseAll c editor.turns then
        takeLeave c.options.palette c.historyPath editor.kept
        return 0
      else return brokenOff

variable [LawfulMonad m]

theorem present_append (p : Palette) (es fs : List (Marked String)) :
    (present p (es ++ fs) : m Unit) = (do present p es; present p fs) := by
  rw [present, List.map_append, performAll_append]
  rfl

omit [LawfulMonad m] in
theorem present_nil (p : Palette) : (present p [] : m Unit) = pure () := rfl

omit [LawfulMonad m] in
theorem present_out_cons (p : Palette) (doc : Markup) (es : List (Marked String)) :
    (present p (.out doc :: es) : m Unit) = (do Host.out (doc.written p); present p es) := rfl

theorem present_out (p : Palette) (doc : Markup) :
    (present p [.out doc] : m Unit) = Host.out (doc.written p) := by
  simp [present, performAll, perform, Marked.event]

theorem present_err (p : Palette) (doc : Markup) :
    (present p [.err doc] : m Unit) = Host.err (doc.written p) := by
  simp [present, performAll, perform, Marked.event]

theorem warn_eq (p : Palette) (message : String) :
    (warn p message : m Unit) = present p [warning message] := by
  rw [warning, present_err]
  rfl

omit [LawfulMonad m] in
theorem introduce_eq (settings : Settings) (target : Option String) (p : Palette) :
    (introduce settings target p : m Unit) =
      present p (Marked.opening (openSession settings target)) :=
  congrArg performAll (Marked.map_opening (Marked.optionsOf settings.repl p) _).symm

/-- The conversation that is opened. -/
def opened (here : Surroundings) (settings : Settings) (target : Option String) (p : Palette) :
    Conversation where
  options := Marked.optionsOf settings.repl p
  asking := Marked.askingOf settings.repl p
  session := openSession settings target
  showsPrompt := here.simpleTerminal
  historyPath := historyFile here settings

/-- A greeting is the opening and what is said about the line history. -/
theorem greet_eq (here : Surroundings) (settings : Settings) (target : Option String)
    (p : Palette) :
    (greet here settings target p : m Conversation) = (do
      present p (Marked.opening (openSession settings target))
      present p (← historyTrouble (historyFile here settings))
      return opened here settings target p) := by
  unfold greet historyTrouble
  rw [introduce_eq, ← historyFile]
  refine bind_congr fun _ => ?_
  cases hpath : historyFile here settings with
  | none =>
    simp only [pure_bind, present_nil, opened, hpath]
    rfl
  | some path =>
    simp only [bind_assoc]
    refine bind_congr fun found => ?_
    split
    · simp only [bind_assoc]
      refine bind_congr fun contents => ?_
      cases contents with
      | ok text =>
        simp only [pure_bind, present_nil, opened, hpath]
        rfl
      | error e =>
        simp only [pure_bind, opened, hpath, warn_eq]
        rfl
    · simp only [pure_bind, present_nil, opened, hpath]
      rfl

theorem prepareHistory_eq (p : Palette) (path : String) :
    (prepareHistory p path : m Unit) = (do present p (← directoryTrouble (some path))) := by
  unfold prepareHistory directoryTrouble
  rw [Option.bind_some]
  cases Path.parent? path with
  | none => simp only [pure_bind, present_nil]
  | some parent =>
    by_cases hparent : parent.isEmpty = true
    · simp only [hparent, if_true, pure_bind, present_nil]
    · simp only [if_neg hparent, bind_assoc]
      refine bind_congr fun made => ?_
      cases made with
      | ok _ => simp only [pure_bind, present_nil]
      | error e => simp only [pure_bind, warn_eq]

theorem keepHistory_eq (p : Palette) (path : String) (kept : Option String) :
    (keepHistory p path kept : m Unit) = (do present p (← keepingTrouble (some path) kept)) := by
  unfold keepHistory keepingTrouble
  cases kept with
  | none => simp only [pure_bind, present_nil]
  | some contents =>
    simp only [bind_assoc]
    refine bind_congr fun written => ?_
    cases written with
    | ok _ => simp only [pure_bind, present_nil]
    | error e => simp only [pure_bind, warn_eq]

/-- Taking leave is what is said about the directory and about the file, in this order. -/
theorem takeLeave_eq (p : Palette) (historyPath kept : Option String) :
    (takeLeave p historyPath kept : m Unit) = (do
      present p (← directoryTrouble historyPath)
      present p (← keepingTrouble historyPath kept)) := by
  unfold takeLeave
  cases historyPath with
  | none => simp only [directoryTrouble, keepingTrouble, Option.bind_none, pure_bind, present_nil]
  | some path => simp only [prepareHistory_eq, keepHistory_eq, bind_assoc]

/-- The run lemma.  What is written from the first line on is the exchange. -/
theorem converseAll_eq (r : ReplSettings) (p : Palette) (prompt : List (Marked String))
    (c : Conversation) (hoptions : c.options = Marked.optionsOf r p)
    (hasking : c.asking = Marked.askingOf r p) (h : (ask c : m Unit) = present p prompt)
    (turns : List Turn) :
    (converseAll c turns : m Bool) = (do
      present p (exchange r prompt c.session turns).1
      return (exchange r prompt c.session turns).2) := by
  induction turns generalizing c with
  | nil => rw [converseAll, h]; rfl
  | cons turn turns ih =>
    have htake := Marked.take_eq_toTaken r p c.session turn
    rw [converseAll, h, exchange]
    simp only [converse, hoptions, hasking, htake, bind_assoc, pure_bind, Marked.Taken.toTaken]
    cases (Marked.take r c.session turn).course with
    | goesOn =>
      -- The prompt is asked for in the same way in the next session.
      have hrest := ih { c with session := (Marked.take r c.session turn).session } hoptions
        hasking h
      rw [hoptions, hasking] at hrest
      simp only [present_append, bind_assoc, hrest]
      rfl
    | «over» | broken =>
      simp only [present_append, bind_assoc]
      rfl

theorem ask_opened (here : Surroundings) (settings : Settings) (target : Option String)
    (p : Palette) :
    (ask (opened here settings target p) : m Unit) = present p (prompting here settings) := by
  cases h : here.simpleTerminal with
  | true => simp only [ask, opened, prompting, h, if_true, present_out]; rfl
  | false => simp only [ask, opened, prompting, h, Bool.false_eq_true, if_false, present_nil]

theorem present_complaint (p : Palette) (label : String) (doc : Markup) :
    (present p [.err (.complaint label doc)] : m Unit) = complain p label (doc.written p) := by
  rw [present_err]
  rfl

theorem complain_eq (p : Palette) (label message : String) :
    (complain p label message : m Unit) = present p [Marked.complaint label message] :=
  (present_complaint p label (.text message)).symm

/-- The run lemma for an evaluation, which ends at the first input that fails. -/
theorem evalInputs_eq (p : Palette) (s : Calculator String) (inputs : List String) :
    (evalInputs p s inputs : m UInt32) = (do
      present p (evaluation s inputs).1
      return (evaluation s inputs).2) := by
  induction inputs generalizing s with
  | nil => simp only [evalInputs, evaluation, present_nil, pure_bind]
  | cons input inputs ih =>
    have hstoring : (storeSaved (s.exec input true).saved : m Unit) =
        present p (Marked.storing (s.exec input true).saved) := by
      rw [present, Marked.map_storing, performAll_storing]
    unfold evalInputs evaluation execLine
    simp only [hstoring, bind_assoc, pure_bind]
    split
    · simp only [present_append, present_out_cons, bind_assoc, ih]
      rfl
    · simp only [present_append, present_complaint, bind_assoc]
      rfl

theorem showTokens_eq (p : Palette) (input : String) :
    (showTokens p input : m UInt32) = (do
      present p (tokensShown input).1
      return (tokensShown input).2) := by
  unfold showTokens tokensShown
  cases Calculator.parse input with
  | ok ts => simp only [present_out]; rfl
  | error e => simp only [complain_eq]

theorem makeSettings_eq (p : Palette) :
    (makeSettings p : m UInt32) = (do
      let (es, code) ← settingsMade
      present p es
      return code) := by
  unfold makeSettings settingsMade
  simp only [bind_assoc]
  refine bind_congr fun found => ?_
  split
  · simp only [complain_eq, pure_bind]
  · simp only [bind_assoc]
    refine bind_congr fun written => ?_
    cases written with
    | error e => simp only [complain_eq, pure_bind]
    | ok _ => simp only [pure_bind, present_out]; rfl

/-- Everything that a conversation writes is a marked text in the colours of the palette. -/
theorem hold_eq (here : Surroundings) (settings : Settings) (target : Option String) (p : Palette)
    (editor : Editor) :
    (hold here settings target p editor : m UInt32) = (do
      let s := openSession settings target
      present p (Marked.opening s)
      match editor.refusal with
      | some message =>
          present p [Marked.complaint "error:" message]
          return 1
      | none =>
          let exchanged := exchange settings.repl (prompting here settings) s editor.turns
          present p (← historyTrouble (historyFile here settings))
          present p exchanged.1
          if exchanged.2 then
            present p (← directoryTrouble (historyFile here settings))
            present p (← keepingTrouble (historyFile here settings) editor.kept)
            return 0
          else return brokenOff) := by
  unfold hold approach
  cases editor.refusal with
  | some message => simp only [introduce_eq, complain_eq, bind_assoc, pure_bind]
  | none =>
    have hexchange := converseAll_eq (m := m) settings.repl p _ (opened here settings target p) rfl
      rfl (ask_opened here settings target p)
    -- The conversation is unfolded last, since the rest is about it as a whole.
    simp only [greet_eq, bind_assoc, pure_bind, hexchange, takeLeave_eq]
    simp only [opened, Marked.optionsOf]
    rfl

/-- Does what a command asks for, once the settings are known. -/
def obey (here : Surroundings) (settings : Settings) (target : Option String) (p : Palette)
    (editor : Editor) : Command → m UInt32
  | .repl => hold here settings target p editor
  | .eval inputs => evalInputs p (openSession settings target) inputs
  | .parse input => showTokens p input
  | .init => makeSettings p

/-- The palette that results and messages are shown in. -/
def paletteOf (here : Surroundings) (options : Options) (settings : Settings) : Palette :=
  ⟨settings.repl.color && !options.noColor && !here.noColor⟩

/-- A request is obeyed in the colours of its palette.  Only if there are no settings, what is said
about it is shown in a palette that knows no options. -/
theorem run_of_request {args : List String} {options : Options} {command : Command}
    (h : Arguments.request args = .run options command) (here : Surroundings) (editor : Editor) :
    (App.run here args editor : m UInt32) = (do
      match ← loadSettings here options.config with
      | .error fault =>
          present ⟨!here.noColor⟩ [Marked.complaint "error:" fault.message]
          return 1
      | .ok (settings, target) =>
          obey here settings target (paletteOf here options settings) editor command) := by
  unfold App.run begin
  rw [h]
  simp only [bind_assoc]
  refine bind_congr fun loaded => ?_
  cases loaded with
  | error fault => simp only [complain_eq, bind_assoc, pure_bind]
  | ok found => cases command <;> simp only [bind_assoc, pure_bind, bind_pure] <;> rfl

end Hosts

end Abacus.App
