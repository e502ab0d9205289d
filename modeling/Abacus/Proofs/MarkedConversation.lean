import Abacus.Proofs.Conversation
import Abacus.Proofs.Markup

/-!
# Conversations in marked texts

What the console shows, put together as marked texts.  The functions here follow those of the
console one by one, but they take no palette.  That the console writes out exactly these texts, in
the colours of its palette, is `step_eq_toStep` for a line.  So a line leads to the same session
whatever the palette is, and the conversation goes on or ends alike.

All of these texts are aligned but one.  The history fills the column of its numbers when the
numbers have been coloured, where the tables of tokens and of variables fill theirs before.  So a
line shows a text that is not aligned if and only if it lists a history that is not empty
(`aligned_step_iff`).
-/

namespace Abacus.Console

variable {η : Type}

/-! ## Texts -/

namespace Markup

@[simp] theorem aligned_text (s : String) : (text s).Aligned := trivial

@[simp] theorem aligned_paint (how : Paint) (m : Markup) :
    (paint how m).Aligned ↔ m.Aligned := .rfl

@[simp] theorem aligned_append (m n : Markup) : (m ++ n).Aligned ↔ m.Aligned ∧ n.Aligned := .rfl

/-- A label, set off, and what it is about. -/
def labelled (how : Paint) (label : String) (m : Markup) : Markup :=
  .paint how (.text label) ++ .text " " ++ m ++ .text "\n"

/-- A message about a fault. -/
def complaint (label : String) (m : Markup) : Markup := labelled .red label m

def tokenRow (t : Token) : Markup :=
  .text (Text.padLeft 4 (toString t.pos)) ++ .text "  " ++
    .paint (groupPaint t.kind.group) (.text (Text.padRight 10 t.kind.name)) ++ .text " " ++
    .text t.text ++ .text "\n"

def tokenTable (ts : List Token) : Markup := join (ts.map tokenRow)

def variableRow (width : Nat) (name value : String) : Markup :=
  .text "  " ++ .paint .cyan (.text (Text.padRight width name)) ++ .text " = " ++ .text value ++
    .text "\n"

def variableTable (bindings : Dict String) : Markup :=
  if bindings.isEmpty then .paint .gray (.text "No variables defined.") ++ .text "\n"
  else
    let width := nameWidth bindings.keys
    join (bindings.entries.map fun e => variableRow width e.1 e.2)

def help : Markup :=
  .paint .bold (.text "Commands:") ++ .text "\n" ++
    join (Repl.commandHelp.map fun row =>
      .text "  " ++ .paint .cyan (.text row.1) ++ .text "  " ++ .paint .gray (.text row.2) ++
        .text "\n") ++
    .text "\n" ++ .paint .bold (.text "Language:") ++ .text "\n" ++
    join (Repl.languageHelp.map fun line => .text "  " ++ .paint .gray (.text line) ++ .text "\n")

/-- A result, with its digits in groups or not. -/
def result (grouped : Bool) (s : String) : Markup := .text (if grouped then Grouping.group s else s)

/-- A row of the history.  The column of numbers is filled after they have been coloured. -/
def historyRow (grouped : Bool) (number : Nat) (entry : Session.Entry) : Markup :=
  .column 4 (.paint .gray (.text (toString number))) ++ .text " " ++ .text entry.input ++
    .text " " ++ .paint .gray (.text "=") ++ .text " " ++ result grouped entry.result ++ .text "\n"

def historyRows (grouped : Bool) (number : Nat) : List Session.Entry → Markup
  | [] => .text ""
  | entry :: entries =>
      historyRow grouped number entry ++ historyRows grouped (number + 1) entries

def history (grouped : Bool) (entries : List Session.Entry) : Markup :=
  if entries.isEmpty then .paint .gray (.text "History is empty.") ++ .text "\n"
  else historyRows grouped 1 entries

theorem written_tokenTable (p : Palette) (ts : List Token) :
    (tokenTable ts).written p = Console.tokenTable p ts := by
  rw [tokenTable, written_join, List.map_map]
  rfl

theorem written_variableTable (p : Palette) (bindings : Dict String) :
    (variableTable bindings).written p = Console.variableTable p bindings := by
  rw [variableTable, Console.variableTable]
  split
  · rfl
  · rw [written_join, List.map_map]
    rfl

theorem written_help (p : Palette) : help.written p = Repl.help p := by
  simp only [help, Repl.help, written_append, written_join, List.map_map]
  rfl

theorem written_historyRows (o : Repl.Options) (number : Nat) (entries : List Session.Entry) :
    (historyRows o.groupDigits number entries).written o.palette =
      Repl.historyRows o number entries := by
  induction entries generalizing number with
  | nil => rfl
  | cons entry entries ih =>
    rw [historyRows, written_append, ih]
    rfl

theorem written_history (o : Repl.Options) (entries : List Session.Entry) :
    (history o.groupDigits entries).written o.palette = Repl.historyText o entries := by
  rw [history, Repl.historyText]
  split
  · rfl
  · exact written_historyRows o 1 entries

theorem aligned_tokenTable (ts : List Token) : (tokenTable ts).Aligned := by
  rw [tokenTable, aligned_join, List.forall_mem_map]
  exact fun t _ => by simp [tokenRow]

theorem aligned_variableTable (bindings : Dict String) : (variableTable bindings).Aligned := by
  rw [variableTable]
  split
  · simp
  · rw [aligned_join, List.forall_mem_map]
    exact fun e _ => by simp [variableRow]

theorem aligned_help : help.Aligned := by
  have hcommands : (join (Repl.commandHelp.map fun row =>
      .text "  " ++ .paint .cyan (.text row.1) ++ .text "  " ++ .paint .gray (.text row.2) ++
        .text "\n")).Aligned := by
    rw [aligned_join, List.forall_mem_map]
    exact fun row _ => by simp
  have hlanguage : (join (Repl.languageHelp.map fun line =>
      .text "  " ++ .paint .gray (.text line) ++ .text "\n")).Aligned := by
    rw [aligned_join, List.forall_mem_map]
    exact fun line _ => by simp
  simp [help, hcommands, hlanguage]

/-- The first number is narrower than its column, and with the escape sequences it is wider. -/
theorem not_aligned_historyRow_one (grouped : Bool) (entry : Session.Entry) :
    ¬ (historyRow grouped 1 entry).Aligned := by
  intro h
  have hnumber : (column 4 (.paint .gray (.text (toString 1)))).Aligned := by
    simp only [historyRow, aligned_append] at h
    exact h.1.1.1.1.1.1.1
  exact absurd hnumber.1 (by decide +kernel)

theorem aligned_history_iff (grouped : Bool) (entries : List Session.Entry) :
    (history grouped entries).Aligned ↔ entries = [] := by
  cases entries with
  | nil => simp [history]
  | cons entry entries =>
    refine iff_of_false (fun h => ?_) (List.cons_ne_nil _ _)
    exact not_aligned_historyRow_one grouped entry h.1

end Markup

/-! ## Events -/

/-- An event with a text that has not been written yet. -/
inductive Marked (η : Type) where
  | out (m : Markup)
  | err (m : Markup)
  | store (hook : η) (snapshot : String)
  deriving DecidableEq, Repr

namespace Marked

/-- The event in the colours of a palette. -/
def event (p : Palette) : Marked η → Event η
  | out m => .out (m.written p)
  | err m => .err (m.written p)
  | store hook snapshot => .store hook snapshot

def out? : Marked η → Option Markup
  | out m => some m
  | err _ | store _ _ => none

def err? : Marked η → Option Markup
  | err m => some m
  | out _ | store _ _ => none

/-- All that events write to the standard output. -/
def outs (es : List (Marked η)) : Markup := .join (es.filterMap out?)

/-- All that events write to the standard error output. -/
def errs (es : List (Marked η)) : Markup := .join (es.filterMap err?)

@[simp] theorem outs_nil : outs ([] : List (Marked η)) = .text "" := rfl

@[simp] theorem outs_out (m : Markup) (es : List (Marked η)) :
    outs (.out m :: es) = m ++ outs es := rfl

@[simp] theorem outs_err (m : Markup) (es : List (Marked η)) : outs (.err m :: es) = outs es := rfl

@[simp] theorem outs_store (hook : η) (snapshot : String) (es : List (Marked η)) :
    outs (.store hook snapshot :: es) = outs es := rfl

@[simp] theorem errs_nil : errs ([] : List (Marked η)) = .text "" := rfl

@[simp] theorem errs_out (m : Markup) (es : List (Marked η)) : errs (.out m :: es) = errs es := rfl

@[simp] theorem errs_err (m : Markup) (es : List (Marked η)) :
    errs (.err m :: es) = m ++ errs es := rfl

@[simp] theorem errs_store (hook : η) (snapshot : String) (es : List (Marked η)) :
    errs (.store hook snapshot :: es) = errs es := rfl

theorem written_outs_append (p : Palette) (es fs : List (Marked η)) :
    (outs (es ++ fs)).written p = (outs es).written p ++ (outs fs).written p := by
  rw [outs, List.filterMap_append, Markup.written_join_append, outs, outs]

theorem written_errs_append (p : Palette) (es fs : List (Marked η)) :
    (errs (es ++ fs)).written p = (errs es).written p ++ (errs fs).written p := by
  rw [errs, List.filterMap_append, Markup.written_join_append, errs, errs]

theorem aligned_outs_append (es fs : List (Marked η)) :
    (outs (es ++ fs)).Aligned ↔ (outs es).Aligned ∧ (outs fs).Aligned := by
  simp only [outs, List.filterMap_append, Markup.aligned_join, List.forall_mem_append]

theorem aligned_errs_append (es fs : List (Marked η)) :
    (errs (es ++ fs)).Aligned ↔ (errs es).Aligned ∧ (errs fs).Aligned := by
  simp only [errs, List.filterMap_append, Markup.aligned_join, List.forall_mem_append]

/-! ## Lines -/

/-- What a line leads to, with texts that have not been written yet. -/
structure Step (η : Type) where
  session : Calculator η
  events : List (Marked η)
  goesOn : Bool := true

def Step.toStep (p : Palette) (next : Step η) : Repl.Step η where
  session := next.session
  events := next.events.map (event p)
  goesOn := next.goesOn

/-- The lines that open the conversation. -/
def opening (s : Calculator η) : List (Marked η) :=
  [.out (.paint .bold (.paint .cyan (.text Repl.programName)) ++ .text "\n")] ++
    (match Repl.restoredBanner s with
      | some banner => [.out (.paint .gray (.text banner) ++ .text "\n")]
      | none => []) ++
    [.out (.paint .gray (.text "Type :help for available commands, :quit to exit.") ++
      .text "\n\n")]

def storing (saved : Option (η × String)) : List (Marked η) :=
  match saved with
  | some (hook, snapshot) => [.store hook snapshot]
  | none => []

def complaint (label message : String) : Marked η := .err (.complaint label (.text message))

/-- The message of a session whose last line failed. -/
def failure (s : Calculator η) : List (Marked η) :=
  match s.record.lastError with
  | some message => [complaint "error:" message]
  | none => []

/-- A line for the session. -/
def evaluate (grouped : Bool) (s : Calculator η) (line : String) : Step η :=
  let outcome := s.exec line true
  let after := outcome.session
  { session := after
    events := storing outcome.saved ++
      if outcome.ok then
        [.out (.paint .bold (.result grouped after.record.lastResult) ++ .text "\n")]
      else failure after }

/-- A command. -/
def command (grouped : Bool) (s : Calculator η) : Command → Step η
  | .quit => { session := s, events := [], goesOn := false }
  | .help => { session := s, events := [.out .help] }
  | .history => { session := s, events := [.out (.history grouped s.record.history)] }
  | .vars => { session := s, events := [.out (.variableTable s.record.bindings)] }
  | .state =>
      { session := s, events := [.out (.text (Repl.recordJson s.record).pretty ++ .text "\n")] }
  | .parse input =>
      match Calculator.parse input with
      | .ok ts => { session := s, events := [.out (.tokenTable ts)] }
      | .error e => { session := s, events := [complaint "syntax error:" e.message] }
  | .preview input =>
      let outcome := s.exec input false
      let after := outcome.session
      { session := after
        events :=
          if outcome.ok then
            [.out (.text after.record.lastResult ++ .text " " ++ .paint .gray (.text "(preview)") ++
              .text "\n")]
          else failure after }

/-- A line. -/
def step (grouped : Bool) (s : Calculator η) (line : String) : Step η :=
  if Text.isBlankText line then { session := s, events := [] }
  else
    match Command.read line with
    | .input => evaluate grouped s (Text.trim line)
    | .unknown =>
        { session := s
          events := [complaint "error:" "unknown command. Type :help for usage."] }
    | .misused usage => { session := s, events := [complaint "error:" usage] }
    | .command c => command grouped s c

/-! ### In colours -/

theorem map_opening (o : Repl.Options) (s : Calculator η) :
    (opening s).map (event o.palette) = Repl.opening o s := by
  simp only [opening, Repl.opening, List.map_append]
  cases Repl.restoredBanner s <;> rfl

theorem map_storing (p : Palette) (saved : Option (η × String)) :
    (storing saved).map (event p) = Repl.storing saved := by
  cases saved <;> rfl

theorem map_failure (p : Palette) (s : Calculator η) :
    (failure s).map (event p) = Repl.failure p s := by
  unfold failure Repl.failure
  cases s.record.lastError <;> rfl

theorem evaluate_eq_toStep (o : Repl.Options) (s : Calculator η) (line : String) :
    Repl.evaluate o s line = (evaluate o.groupDigits s line).toStep o.palette := by
  simp only [Repl.evaluate, evaluate, Step.toStep, List.map_append, map_storing]
  split
  · rfl
  · rw [map_failure]

theorem command_eq_toStep (o : Repl.Options) (s : Calculator η) (c : Command) :
    Repl.command o s c = (command o.groupDigits s c).toStep o.palette := by
  cases c with
  | quit => rfl
  | state => rfl
  | help => rw [Repl.command, ← Markup.written_help]; rfl
  | history => rw [Repl.command, ← Markup.written_history]; rfl
  | vars => rw [Repl.command, ← Markup.written_variableTable]; rfl
  | parse input =>
    simp only [Repl.command, command]
    cases Calculator.parse input with
    | ok ts => simp only [← Markup.written_tokenTable]; rfl
    | error e => rfl
  | preview input =>
    simp only [Repl.command, command, Step.toStep]
    split
    · rfl
    · rw [map_failure]

/-- The console writes the marked texts in the colours of its palette. -/
theorem step_eq_toStep (o : Repl.Options) (s : Calculator η) (line : String) :
    Repl.step o s line = (step o.groupDigits s line).toStep o.palette := by
  unfold Repl.step step
  split
  · rfl
  · cases Command.read line with
    | input => exact evaluate_eq_toStep o s _
    | unknown => rfl
    | misused usage => rfl
    | command c => exact command_eq_toStep o s c

/-! ### Columns -/

/-- The columns of the text are aligned. -/
def Aligned : Marked η → Prop
  | out m => m.Aligned
  | err m => m.Aligned
  | store _ _ => True

theorem aligned_outs {es : List (Marked η)} (h : ∀ e ∈ es, e.Aligned) : (outs es).Aligned := by
  rw [outs, Markup.aligned_join]
  intro m hm
  obtain ⟨e, he, hout⟩ := List.mem_filterMap.mp hm
  cases e with
  | out m' =>
    obtain rfl := Option.some.inj hout
    exact h _ he
  | err | store => cases hout

theorem aligned_errs {es : List (Marked η)} (h : ∀ e ∈ es, e.Aligned) : (errs es).Aligned := by
  rw [errs, Markup.aligned_join]
  intro m hm
  obtain ⟨e, he, herr⟩ := List.mem_filterMap.mp hm
  cases e with
  | err m' =>
    obtain rfl := Option.some.inj herr
    exact h _ he
  | out | store => cases herr

theorem aligned_complaint (label message : String) :
    (complaint label message : Marked η).Aligned := by
  simp [complaint, Aligned, Markup.complaint, Markup.labelled]

theorem aligned_storing (saved : Option (η × String)) : ∀ e ∈ storing saved, e.Aligned := by
  cases saved with
  | none => exact List.forall_mem_nil _
  | some due => exact List.forall_mem_singleton.mpr trivial

theorem aligned_failure (s : Calculator η) : ∀ e ∈ failure s, e.Aligned := by
  unfold failure
  cases s.record.lastError with
  | none => exact List.forall_mem_nil _
  | some message => exact List.forall_mem_singleton.mpr (aligned_complaint _ message)

theorem aligned_opening (s : Calculator η) : ∀ e ∈ opening s, e.Aligned := by
  unfold opening
  cases Repl.restoredBanner s <;> simp [Aligned]

theorem aligned_evaluate (grouped : Bool) (s : Calculator η) (line : String) :
    ∀ e ∈ (evaluate grouped s line).events, e.Aligned := by
  simp only [evaluate, List.forall_mem_append]
  refine ⟨aligned_storing _, ?_⟩
  split
  · simp [Aligned, Markup.result]
  · exact aligned_failure _

theorem aligned_command (grouped : Bool) (s : Calculator η) {c : Command} (hc : c ≠ .history) :
    ∀ e ∈ (command grouped s c).events, e.Aligned := by
  cases c with
  | history => exact absurd rfl hc
  | quit => exact List.forall_mem_nil _
  | help => exact List.forall_mem_singleton.mpr Markup.aligned_help
  | vars => exact List.forall_mem_singleton.mpr (Markup.aligned_variableTable _)
  | state => exact List.forall_mem_singleton.mpr (by simp [Aligned])
  | parse input =>
    simp only [command]
    cases Calculator.parse input with
    | ok ts => exact List.forall_mem_singleton.mpr (Markup.aligned_tokenTable ts)
    | error e => exact List.forall_mem_singleton.mpr (aligned_complaint _ _)
  | preview input =>
    simp only [command]
    split
    · simp [Aligned]
    · exact aligned_failure _

theorem aligned_step (grouped : Bool) (s : Calculator η) {line : String}
    (h : Command.read line ≠ .command .history) :
    ∀ e ∈ (step grouped s line).events, e.Aligned := by
  unfold step
  split
  · exact List.forall_mem_nil _
  · cases hread : Command.read line with
    | input => exact aligned_evaluate grouped s _
    | unknown => exact List.forall_mem_singleton.mpr (aligned_complaint _ _)
    | misused usage => exact List.forall_mem_singleton.mpr (aligned_complaint _ _)
    | command c => exact aligned_command grouped s fun hc => h (hc ▸ hread)

theorem step_history (grouped : Bool) (s : Calculator η) {line : String}
    (h : Command.read line = .command .history) :
    step grouped s line =
      { session := s, events := [out (.history grouped s.record.history)] } := by
  -- A blank line is read as an input, so it is no command.
  have hblank : Text.isBlankText line = false := by
    rw [Bool.eq_false_iff]
    intro hblank
    have hinput : Command.read line = .input := by
      rw [read_eq_input_iff, Text.isBlankText_iff.mp hblank]
      nofun
    rw [hinput] at h
    cases h
  rw [step, hblank, h]
  rfl

/-- Whether a line lists a history that is not empty. -/
def listsHistory (s : Calculator η) (line : String) : Bool :=
  Command.read line = .command .history && !s.record.history.isEmpty

/-- The step lemma.  What a line shows is aligned, unless it lists a history that is not empty. -/
theorem aligned_step_iff (grouped : Bool) (s : Calculator η) (line : String) :
    (errs (step grouped s line).events).Aligned ∧
      ((outs (step grouped s line).events).Aligned ↔ listsHistory s line = false) := by
  by_cases h : Command.read line = .command .history
  · have hlists : listsHistory s line = false ↔ s.record.history = [] := by
      simp [listsHistory, h]
    rw [step_history grouped s h, hlists, ← Markup.aligned_history_iff grouped]
    exact ⟨trivial, and_iff_left trivial⟩
  · have hlists : listsHistory s line = false := by simp [listsHistory, h]
    have hall := aligned_step grouped s h
    exact ⟨aligned_errs hall, iff_of_true (aligned_outs hall) hlists⟩

end Marked

end Abacus.Console
