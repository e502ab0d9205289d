import Abacus.Proofs.CleanSessions
import Abacus.Proofs.MarkedTurns

/-!
# Turns without escape sequences

A palette that is switched off adds no escape sequence, so all that are written come from the texts
that are shown.  Here the turns of a conversation are gone through, text by text.  The editor may
write what it likes, and no more is said of it; of everything else, no escape character is written
that is not in a text of the editor or of the settings (`clean_take`).

So the texts of a turn are of two kinds.  Those that the editor writes on its own (`Turn.owns`) may
have escape sequences, since that is how a cursor is moved.  Those that are given to the program, as
lines or as the reason why there is none (`Turn.given`), are to have none.
-/

namespace Abacus

theorem Token.Kind.escapeFree_name (k : Token.Kind) : Text.EscapeFree k.name := by
  cases k <;> decide

namespace Console

/-! ## Texts -/

namespace Markup

/-- Without colours, no escape character is written. -/
def EscapeFree (m : Markup) : Prop := Text.EscapeFree (m.written ⟨false⟩)

instance : DecidablePred EscapeFree := fun m =>
  inferInstanceAs (Decidable (Text.EscapeFree (m.written ⟨false⟩)))

@[simp] theorem escapeFree_text (s : String) : (text s).EscapeFree ↔ Text.EscapeFree s := .rfl

@[simp] theorem escapeFree_paint (how : Paint) (m : Markup) :
    (paint how m).EscapeFree ↔ m.EscapeFree := .rfl

@[simp] theorem escapeFree_append (m n : Markup) :
    (m ++ n).EscapeFree ↔ m.EscapeFree ∧ n.EscapeFree := Text.escapeFree_append

@[simp] theorem escapeFree_column (width : Nat) (m : Markup) :
    (column width m).EscapeFree ↔ m.EscapeFree := Text.escapeFree_padLeft

theorem escapeFree_join {ms : List Markup} : (join ms).EscapeFree ↔ ∀ m ∈ ms, m.EscapeFree := by
  induction ms with
  | nil => exact iff_of_true List.not_mem_nil (List.forall_mem_nil _)
  | cons m ms ih => rw [List.forall_mem_cons, ← ih, join, escapeFree_append]

theorem escapeFree_complaint {label : String} (hlabel : Text.EscapeFree label) {m : Markup} :
    (complaint label m).EscapeFree ↔ m.EscapeFree := by
  simp +decide [complaint, labelled, hlabel]

theorem escapeFree_tokenTable {ts : List Token} (h : ∀ t ∈ ts, Text.EscapeFree t.text) :
    (tokenTable ts).EscapeFree := by
  rw [tokenTable, escapeFree_join, List.forall_mem_map]
  intro t ht
  simp +decide [tokenRow, t.kind.escapeFree_name, h t ht]

theorem escapeFree_variableTable {bindings : Dict String}
    (h : ∀ e ∈ bindings.entries, Text.EscapeFree e.1 ∧ Text.EscapeFree e.2) :
    (variableTable bindings).EscapeFree := by
  rw [variableTable]
  split
  · decide
  · rw [escapeFree_join, List.forall_mem_map]
    intro e he
    simp +decide [variableRow, h e he]

theorem escapeFree_help : help.EscapeFree := by
  have hcommands : ∀ row ∈ Repl.commandHelp, Text.EscapeFree row.1 ∧ Text.EscapeFree row.2 := by
    decide
  have hlanguage : ∀ line ∈ Repl.languageHelp, Text.EscapeFree line := by decide
  have hcommandRows : (join (Repl.commandHelp.map fun row =>
      .text "  " ++ .paint .cyan (.text row.1) ++ .text "  " ++ .paint .gray (.text row.2) ++
        .text "\n")).EscapeFree := by
    rw [escapeFree_join, List.forall_mem_map]
    intro row hrow
    simp +decide [hcommands row hrow]
  have hlanguageRows : (join (Repl.languageHelp.map fun line =>
      .text "  " ++ .paint .gray (.text line) ++ .text "\n")).EscapeFree := by
    rw [escapeFree_join, List.forall_mem_map]
    intro line hline
    simp +decide [hlanguage line hline]
  simp only [help, escapeFree_append, escapeFree_paint, escapeFree_text, hcommandRows,
    hlanguageRows]
  decide

theorem escapeFree_result (grouped : Bool) {s : String} (h : Text.EscapeFree s) :
    (result grouped s).EscapeFree := by
  rw [result, escapeFree_text]
  split
  · exact Grouping.escapeFree_group h
  · exact h

theorem escapeFree_historyRows (grouped : Bool) (number : Nat) {entries : List Session.Entry}
    (h : ∀ entry ∈ entries, Text.EscapeFree entry.input ∧ Text.EscapeFree entry.result) :
    (historyRows grouped number entries).EscapeFree := by
  induction entries generalizing number with
  | nil => exact List.not_mem_nil
  | cons entry entries ih =>
    obtain ⟨⟨hinput, hresult⟩, hentries⟩ := List.forall_mem_cons.mp h
    rw [historyRows, escapeFree_append]
    refine ⟨?_, ih _ hentries⟩
    simp +decide [historyRow, hinput, escapeFree_result grouped hresult]

theorem escapeFree_history (grouped : Bool) {entries : List Session.Entry}
    (h : ∀ entry ∈ entries, Text.EscapeFree entry.input ∧ Text.EscapeFree entry.result) :
    (history grouped entries).EscapeFree := by
  rw [history]
  split
  · decide
  · exact escapeFree_historyRows grouped 1 h

end Markup

/-! ## What is read and given -/

/-- The texts that are read from a line. -/
def Reading.texts : Reading → List String
  | .misused usage => [usage]
  | .command (.parse text) | .command (.preview text) => [text]
  | .input | .unknown => []
  | .command .quit | .command .help | .command .history | .command .vars | .command .state => []

theorem Command.escapeFree_of_mem_texts {line : String} (h : Text.EscapeFree line) :
    ∀ text ∈ (Command.read line).texts, Text.EscapeFree text := by
  have hargument : Text.EscapeFree (splitWord (Text.trim line)).2 := by
    refine Text.EscapeFree.trim (Text.escapeFree_ofList.mpr fun hmem => ?_)
    exact h.trim ((List.dropWhile_sublist _).subset hmem)
  have hwith {usage argument : String} {command : String → Command}
      (husage : Text.EscapeFree usage) (hargument : Text.EscapeFree argument)
      (hcommand : (Reading.command (command argument)).texts = [argument]) :
      ∀ text ∈ (withArgument usage argument command).texts, Text.EscapeFree text := by
    unfold withArgument
    split
    · exact List.forall_mem_singleton.mpr husage
    · rw [hcommand]
      exact List.forall_mem_singleton.mpr hargument
  simp only [Command.read]
  split
  · split
    case h_9 | h_10 | h_11 => exact hwith (by decide) hargument rfl
    all_goals exact List.forall_mem_nil _
  · exact List.forall_mem_nil _

/-- A text of the editor's own. -/
def Display.own? : Display → Option String
  | .own text => some text
  | .prompt | .line _ | .suggestion _ _ => none

/-- A line that is shown as it has been typed. -/
def Display.given? : Display → Option String
  | .line text => some text
  | .own _ | .prompt | .suggestion _ _ => none

/-- The line that is entered, or the reason why there is none. -/
def Reply.given : Reply → List String
  | .line text => [text]
  | .failed message => [message]
  | .interrupted | .ended | .garbled => []

/-- What the editor writes on its own while a line is being typed. -/
def Turn.owns (turn : Turn) : List String := turn.displays.filterMap Display.own?

/-- What the program is given by the editor in a turn. -/
def Turn.given (turn : Turn) : List String :=
  turn.displays.filterMap Display.given? ++ turn.reply.given

/-- A suggestion has no escape character, whatever has been typed. -/
theorem clean_hint {η : Type} {s : Calculator η} (hs : s.Clean) (preview : Bool) (line : String)
    (cursor : Nat) :
    (Typing.hint s preview line cursor).1.Clean ∧
      ∀ hint ∈ (Typing.hint s preview line cursor).2, Text.EscapeFree hint := by
  unfold Typing.hint Typing.previewHint
  split
  · exact ⟨hs, nofun⟩
  · dsimp only
    split
    · exact ⟨hs, nofun⟩
    · have hafter := hs.exec (Text.trim line) false
      refine ⟨hafter, fun hint hhint => ?_⟩
      split at hhint
      · obtain rfl := Option.some.inj hhint
        exact Text.escapeFree_append.mpr ⟨by decide, hafter.lastResult⟩
      · cases hhint

/-! ## Events -/

namespace Marked

variable {η : Type}

/-- Without colours, the event writes no escape character. -/
def EscapeFree : Marked η → Prop
  | out m => m.EscapeFree
  | err m => m.EscapeFree
  | store _ _ => True

/-- The events write these texts, which may have escape characters, and others that have none. -/
inductive PlainBut : List String → List (Marked η) → Prop
  | nil : PlainBut [] []
  | own {owns : List String} {es : List (Marked η)} (text : String) :
      PlainBut owns es → PlainBut (text :: owns) (.out (.text text) :: es)
  | plain {owns : List String} {es : List (Marked η)} {e : Marked η} :
      e.EscapeFree → PlainBut owns es → PlainBut owns (e :: es)

namespace PlainBut

variable {owns more : List String} {es fs : List (Marked η)}

theorem of_escapeFree (h : ∀ e ∈ es, e.EscapeFree) : PlainBut [] es := by
  induction es with
  | nil => exact .nil
  | cons e es ih =>
    obtain ⟨he, hes⟩ := List.forall_mem_cons.mp h
    exact .plain he (ih hes)

theorem append (h : PlainBut owns es) (h' : PlainBut more fs) :
    PlainBut (owns ++ more) (es ++ fs) := by
  induction h with
  | nil => exact h'
  | own text _ ih => exact .own text ih
  | plain he _ ih => exact .plain he ih

theorem append_escapeFree (h : PlainBut owns es) (hfs : ∀ e ∈ fs, e.EscapeFree) :
    PlainBut owns (es ++ fs) := by
  rw [← List.append_nil owns]
  exact h.append (of_escapeFree hfs)

/-- On the standard output, the escape characters are those of the texts that may have some. -/
theorem escapes_outs (h : PlainBut owns es) :
    Text.escapes ((outs es).written ⟨false⟩) = Text.escapes (String.join owns) := by
  induction h with
  | nil => rfl
  | own text _ ih =>
    rw [outs_out, Markup.written_append, Text.escapes_append, ih, String.join_cons,
      Text.escapes_append]
    rfl
  | @plain owns es e he _ ih =>
    cases e with
    | out m =>
      have hm : Text.escapes (m.written ⟨false⟩) = 0 := Text.escapes_eq_zero_iff.mpr he
      rw [outs_out, Markup.written_append, Text.escapes_append, hm, ih, Nat.zero_add]
    | err | store => exact ih

/-- On the standard error output, there are none. -/
theorem escapeFree_errs (h : PlainBut owns es) : (errs es).EscapeFree := by
  induction h with
  | nil => exact List.not_mem_nil
  | own text _ ih => exact ih
  | @plain owns es e he _ ih =>
    cases e with
    | err m => exact (Markup.escapeFree_append m _).mpr ⟨he, ih⟩
    | out | store => exact ih

end PlainBut

theorem escapeFree_complaint {label message : String} (hlabel : Text.EscapeFree label)
    (h : Text.EscapeFree message) : (complaint label message : Marked η).EscapeFree :=
  (Markup.escapeFree_complaint hlabel).mpr h

theorem escapeFree_storing (saved : Option (η × String)) : ∀ e ∈ storing saved, e.EscapeFree := by
  cases saved with
  | none => exact List.forall_mem_nil _
  | some due => exact List.forall_mem_singleton.mpr trivial

/-! ## Lines -/

section Lines

variable {s : Calculator η}

theorem escapeFree_restoredBanner
    (h : ∀ name ∈ s.environment.names, Text.EscapeFree name) {banner : String}
    (hbanner : Repl.restoredBanner s = some banner) : Text.EscapeFree banner := by
  unfold Repl.restoredBanner at hbanner
  dsimp only at hbanner
  split at hbanner
  · cases hbanner
  · obtain rfl := Option.some.inj hbanner
    have hlist : Text.EscapeFree (String.intercalate ", " s.environment.bindings.keys) :=
      Text.escapeFree_intercalate (by decide) fun name hname =>
        h name (List.mem_append_left _ hname)
    have hnoun (n : Nat) : Text.EscapeFree (if n = 1 then "variable" else "variables") := by
      split <;> decide
    show Text.EscapeFree ("Restored " ++ toString s.environment.bindings.keys.length ++ " " ++
      (if s.environment.bindings.keys.length = 1 then "variable" else "variables") ++
      " from last_state: " ++ String.intercalate ", " s.environment.bindings.keys)
    simp +decide [hlist, hnoun]

theorem escapeFree_opening (h : ∀ name ∈ s.environment.names, Text.EscapeFree name) :
    ∀ e ∈ opening s, e.EscapeFree := by
  simp only [opening, List.forall_mem_append]
  refine ⟨⟨List.forall_mem_singleton.mpr (by simp +decide [EscapeFree]), ?_⟩,
    List.forall_mem_singleton.mpr (by simp +decide [EscapeFree])⟩
  cases hbanner : Repl.restoredBanner s with
  | none => exact List.forall_mem_nil _
  | some banner =>
    refine List.forall_mem_singleton.mpr ?_
    simp +decide [EscapeFree, escapeFree_restoredBanner h hbanner]

theorem escapeFree_failure
    (h : ∀ message, s.record.lastError = some message → Text.EscapeFree message) :
    ∀ e ∈ failure s, e.EscapeFree := by
  unfold failure
  cases hmessage : s.record.lastError with
  | none => exact List.forall_mem_nil _
  | some message =>
    exact List.forall_mem_singleton.mpr (escapeFree_complaint (by decide) (h message hmessage))

theorem escapeFree_evaluate (grouped : Bool) (s : Calculator η) {line : String}
    (hline : Text.EscapeFree line) :
    ∀ e ∈ (evaluate grouped s line).events, e.EscapeFree := by
  obtain ⟨hresult, hmessage⟩ := Calculator.escapeFree_exec s line true
  simp only [evaluate, List.forall_mem_append]
  refine ⟨escapeFree_storing _, ?_⟩
  split
  next hok =>
    refine List.forall_mem_singleton.mpr ?_
    simp +decide [EscapeFree, Markup.escapeFree_result grouped (hresult hok)]
  next => exact escapeFree_failure (hmessage hline)

/-- The record of a session is written as JSON, where an escape character would be escaped. -/
theorem escapeFree_recordJson (r : Session.Record) :
    Text.EscapeFree (Repl.recordJson r).pretty := by
  have hhistory : (Json.array (r.history.map fun entry =>
      .object [("input", .string entry.input), ("result", .string entry.result)])).EscapeFree := by
    refine Json.escapeFree_array (List.forall_mem_map.mpr fun entry _ => ?_)
    exact Json.escapeFree_object (by simp [Json.escapeFree_string])
  have hvariables : (Json.object (r.bindings.entries.map fun e =>
      (e.1, .string e.2))).EscapeFree :=
    Json.escapeFree_object (List.forall_mem_map.mpr fun e _ => Json.escapeFree_string e.2)
  refine Json.EscapeFree.pretty (Json.escapeFree_object ?_)
  cases r.lastError <;>
    simp [hhistory, hvariables, Json.escapeFree_string, Json.escapeFree_null]

/-- A command leaves a session clean, and shows an escape character only if it is about one. -/
theorem clean_command (grouped : Bool) (hs : s.Clean) {c : Command}
    (hc : ∀ text ∈ (Reading.command c).texts, Text.EscapeFree text) :
    (command grouped s c).session.Clean ∧ ∀ e ∈ (command grouped s c).events, e.EscapeFree := by
  cases c with
  | quit => exact ⟨hs, List.forall_mem_nil _⟩
  | help => exact ⟨hs, List.forall_mem_singleton.mpr Markup.escapeFree_help⟩
  | history =>
    exact ⟨hs, List.forall_mem_singleton.mpr (Markup.escapeFree_history grouped hs.history)⟩
  | vars =>
    exact ⟨hs, List.forall_mem_singleton.mpr (Markup.escapeFree_variableTable hs.bindings)⟩
  | state =>
    refine ⟨hs, List.forall_mem_singleton.mpr ?_⟩
    simp +decide [EscapeFree, escapeFree_recordJson]
  | parse input =>
    have hinput : Text.EscapeFree input := hc input (List.mem_singleton.mpr rfl)
    simp only [command]
    cases hparse : Calculator.parse input with
    | ok ts =>
      have hts := Token.escapeFree_of_mem (Calculator.tokenize_of_parse hparse)
      exact ⟨hs, List.forall_mem_singleton.mpr (Markup.escapeFree_tokenTable hts)⟩
    | error e =>
      have hmessage := Calculator.escapeFree_of_parse hparse hinput
      exact ⟨hs, List.forall_mem_singleton.mpr (escapeFree_complaint (by decide) hmessage)⟩
  | preview input =>
    have hinput : Text.EscapeFree input := hc input (List.mem_singleton.mpr rfl)
    obtain ⟨hresult, hmessage⟩ := Calculator.escapeFree_exec s input false
    refine ⟨hs.exec input false, ?_⟩
    simp only [command]
    split
    next hok =>
      refine List.forall_mem_singleton.mpr ?_
      simp +decide [EscapeFree, hresult hok]
    next => exact escapeFree_failure (hmessage hinput)

/-- **The step lemma.**  A line leaves a session clean, and what it shows has an escape character
only if the line has one. -/
theorem clean_step (grouped : Bool) (hs : s.Clean) {line : String} (hline : Text.EscapeFree line) :
    (step grouped s line).session.Clean ∧ ∀ e ∈ (step grouped s line).events, e.EscapeFree := by
  have htexts := Command.escapeFree_of_mem_texts hline
  unfold step
  split
  · exact ⟨hs, List.forall_mem_nil _⟩
  · cases hread : Command.read line with
    | input => exact ⟨hs.exec _ true, escapeFree_evaluate grouped s hline.trim⟩
    | unknown =>
      exact ⟨hs, List.forall_mem_singleton.mpr (escapeFree_complaint (by decide) (by decide))⟩
    | misused usage =>
      rw [hread] at htexts
      have husage := htexts usage (List.mem_singleton.mpr rfl)
      exact ⟨hs, List.forall_mem_singleton.mpr (escapeFree_complaint (by decide) husage)⟩
    | command c =>
      rw [hread] at htexts
      exact clean_command grouped hs htexts

end Lines

/-! ## Turns -/

section Turns

variable {r : ReplSettings} (hprompt : Text.EscapeFree r.prompt) {s : Calculator η}
include hprompt

/-- What the editor shows has an escape character only if it is its own, or the line has one. -/
theorem clean_display (hs : s.Clean) {d : Display}
    (hd : ∀ text ∈ d.given?, Text.EscapeFree text) :
    (display r s d).1.Clean ∧ PlainBut d.own?.toList (display r s d).2 := by
  cases d with
  | own text => exact ⟨hs, .own text .nil⟩
  | prompt =>
    refine ⟨hs, .of_escapeFree (List.forall_mem_singleton.mpr ?_)⟩
    simp +decide [EscapeFree, Markup.prompt, hprompt]
  | line text =>
    refine ⟨hs, .of_escapeFree (List.forall_mem_singleton.mpr ?_)⟩
    rw [EscapeFree, Markup.EscapeFree, Markup.written_highlighted_disabled]
    exact hd text rfl
  | suggestion text cursor =>
    simp only [display]
    obtain ⟨hafter, hhint⟩ := clean_hint hs r.preview text cursor
    refine ⟨hafter, .of_escapeFree ?_⟩
    simp only [List.forall_mem_map, Option.mem_toList]
    exact hhint

theorem clean_displayAll (hs : s.Clean) {ds : List Display}
    (hds : ∀ text ∈ ds.filterMap Display.given?, Text.EscapeFree text) :
    (displayAll r s ds).1.Clean ∧
      PlainBut (ds.filterMap Display.own?) (displayAll r s ds).2 := by
  induction ds generalizing s with
  | nil => exact ⟨hs, .nil⟩
  | cons d ds ih =>
    have hcons (f : Display → Option String) :
        (d :: ds).filterMap f = (f d).toList ++ ds.filterMap f := by
      cases h : f d <;> simp [h]
    rw [hcons, List.forall_mem_append] at hds
    obtain ⟨hsession, hshown⟩ := clean_display hprompt hs
      (fun text htext => hds.1 text (Option.mem_toList.mpr htext))
    obtain ⟨hlast, hmore⟩ := ih hsession hds.2
    rw [hcons]
    exact ⟨hlast, hshown.append hmore⟩

omit hprompt in
theorem clean_receive (hs : s.Clean) {reply : Reply}
    (hreply : ∀ text ∈ reply.given, Text.EscapeFree text) :
    (receive r s reply).session.Clean ∧ ∀ e ∈ (receive r s reply).events, e.EscapeFree := by
  cases reply with
  | line line => exact clean_step r.groupDigits hs (hreply line (List.mem_singleton.mpr rfl))
  | interrupted => exact ⟨hs, List.forall_mem_singleton.mpr (by simp +decide [EscapeFree])⟩
  | failed message =>
    have hmessage := hreply message (List.mem_singleton.mpr rfl)
    exact ⟨hs, List.forall_mem_singleton.mpr (escapeFree_complaint (by decide) hmessage)⟩
  | ended | garbled => exact ⟨hs, List.forall_mem_nil _⟩

/-- **A turn** leaves a session clean.  What it shows has no escape character, apart from the texts
that are the editor's own, if none of those has one that it is given. -/
theorem clean_take (hs : s.Clean) {turn : Turn}
    (hturn : ∀ text ∈ turn.given, Text.EscapeFree text) :
    (take r s turn).session.Clean ∧ PlainBut turn.owns (take r s turn).events := by
  rw [Turn.given, List.forall_mem_append] at hturn
  obtain ⟨hsession, hshown⟩ := clean_displayAll hprompt hs hturn.1
  obtain ⟨hafter, hanswer⟩ := clean_receive (r := r) hsession hturn.2
  exact ⟨hafter, hshown.append_escapeFree hanswer⟩

end Turns

end Marked

end Console

end Abacus
