import Abacus.Console.Repl
import Abacus.Proofs.Layout
import Abacus.Proofs.Previews
import Abacus.Proofs.SaveHooks

/-!
# Conversations

A conversation takes lines as somebody enters them, with blank lines and commands among them.  Only
its *inputs* reach the session to be kept: the lines, before the one that ends the conversation,
that are neither blank nor start with a colon.  They are run without the blanks around them.

Nothing else that is entered has any part in the environment, in the history, in the variables shown
or in what is stored.  `step_cases` says so of one line, and `agrees_run` of a conversation: it does
what a session does with the inputs as its calls.

A preview is run by the session as well, and then changes what it shows of the last line.  So the
conversation and the run of its inputs need not be equal, and what is followed through the lines is
that they agree (`Session.Agrees`).
-/

namespace Abacus

namespace Session

variable {σ τ ν η : Type} (front : Frontend τ) {engine : Engine σ τ ν}

theorem Agrees.symm {s t : Session σ η} (h : Agrees s t) : Agrees t s :=
  ⟨h.environment.symm, h.history.symm, h.bindings.symm, h.hook.symm⟩

/-- A line keeps sessions in agreement, and they make the same hook due. -/
theorem Agrees.exec (he : engine.Honest) {s t : Session σ η} (h : Agrees s t) (input : String) :
    Agrees (exec front engine s input true).session (exec front engine t input true).session ∧
      (exec front engine s input true).saved = (exec front engine t input true).saved := by
  cases hs : (Session.exec front engine s input true).ok with
  | true =>
    rw [exec_true_congr front h hs]
    exact ⟨.refl _, rfl⟩
  | false =>
    have ht : (Session.exec front engine t input true).ok = false := by
      rw [Bool.eq_false_iff]
      intro hok
      rw [exec_true_congr front h.symm hok, hs] at hok
      cases hok
    obtain ⟨hagrees, hsaved⟩ := exec_true_of_failed front he hs
    obtain ⟨hagrees', hsaved'⟩ := exec_true_of_failed front he ht
    exact ⟨hagrees.trans (h.trans hagrees'.symm), hsaved.trans hsaved'.symm⟩

theorem saved_run_exec (s : Session σ η) (input : String) (calls : List (Call η)) :
    (run front engine s (.exec input true :: calls)).2.filterMap Answer.saved? =
      (Session.exec front engine s input true).saved.toList ++
        (run front engine (Session.exec front engine s input true).session calls).2.filterMap
          Answer.saved? := by
  have hanswer : (step front engine s (.exec input true)).2.saved? =
      (Session.exec front engine s input true).saved := rfl
  rw [run, List.filterMap_cons, hanswer]
  cases (Session.exec front engine s input true).saved <;> rfl

end Session

namespace Console

/-- The snapshot that an event stores, and the hook to store it under. -/
def Event.stored? {η : Type} : Event η → Option (η × String)
  | .store hook snapshot => some (hook, snapshot)
  | .out _ => none
  | .err _ => none

/-- The text that an event prints. -/
def Event.printed? {η : Type} : Event η → Option String
  | .out text => some text
  | .err _ => none
  | .store _ _ => none

/-! ## What a line is -/

/-- The first word of a line. -/
def firstWord (line : String) : String :=
  String.ofList ((Text.trim line).toList.takeWhile fun c => !Text.isBlank c)

/-- Whether a line ends the conversation. -/
def ends (line : String) : Bool := [":quit", ":q"].contains (firstWord line)

/-- Whether a line, without the blanks around it, is not empty and does not start with a colon. -/
def isInput (line : String) : Bool := ((Text.trim line).toList.head?.map (· != ':')).getD false

/-- What a conversation has its session run: the inputs before the line that ends it, without the
blanks around them. -/
def inputs (lines : List String) : List String :=
  ((lines.takeWhile fun line => !ends line).filter isInput).map Text.trim

theorem inputs_cons {line : String} (lines : List String) (h : ends line = false) :
    inputs (line :: lines) =
      if isInput line then Text.trim line :: inputs lines else inputs lines := by
  rw [inputs, List.takeWhile_cons_of_pos (by rw [h]; rfl), List.filter_cons]
  split <;> rfl

theorem isInput_iff {line : String} :
    isInput line = true ↔ Text.isBlankText line = false ∧
      (Text.trim line).toList.head? ≠ some ':' := by
  rw [← Bool.not_eq_true, Text.isBlankText_iff, isInput]
  cases (Text.trim line).toList.head? <;> simp

/-- The line that ends the conversation starts with a colon. -/
theorem head?_of_ends {line : String} (h : ends line = true) :
    (Text.trim line).toList.head? = some ':' := by
  have hword : (firstWord line).toList.head? = some ':' := by
    have hcases : firstWord line = ":quit" ∨ firstWord line = ":q" := by simpa [ends] using h
    rcases hcases with h | h <;> rw [h] <;> rfl
  rw [firstWord, String.toList_ofList, List.head?_takeWhile, Option.filter_eq_some_iff] at hword
  exact hword.1

theorem withArgument_ne_input {usage argument : String} {command : String → Command} :
    Command.withArgument usage argument command ≠ .input := by
  unfold Command.withArgument
  split <;> nofun

theorem read_eq_input_iff {line : String} :
    Command.read line = .input ↔ (Text.trim line).toList.head? ≠ some ':' := by
  simp only [Command.read]
  split
  next h =>
    refine iff_of_false ?_ (not_not_intro h)
    split <;> simp [withArgument_ne_input]
  next h => exact iff_of_true rfl h

/-- A command with an argument is another one than that which ends the conversation. -/
theorem withArgument_ne_quit {usage argument : String} {command : String → Command}
    (h : command argument ≠ .quit) :
    Command.withArgument usage argument command ≠ .command .quit := by
  unfold Command.withArgument
  split
  · nofun
  · exact fun heq => h (Reading.command.inj heq)

theorem read_eq_quit_iff {line : String} :
    Command.read line = .command .quit ↔ ends line = true := by
  by_cases hcolon : (Text.trim line).toList.head? = some ':'
  · have hends : ends line = true ↔ firstWord line = ":quit" ∨ firstWord line = ":q" := by
      simp [ends]
    rw [hends]
    simp only [Command.read, if_pos hcolon, Command.splitWord]
    rw [← firstWord]
    split <;> simp_all [withArgument_ne_quit]
  · refine iff_of_false (fun hread => ?_) (fun hends => hcolon (head?_of_ends hends))
    rw [read_eq_input_iff.mpr hcolon] at hread
    cases hread

namespace Repl

open Calculator (frontend engine honest_engine)

variable {η : Type} (o : Options)

/-! ## One line -/

theorem stored_storing (saved : Option (η × String)) :
    (storing saved).filterMap Event.stored? = saved.toList := by
  cases saved <;> rfl

theorem stored_failure (p : Palette) (s : Calculator η) :
    (failure p s).filterMap Event.stored? = [] := by
  unfold failure
  split <;> rfl

theorem stored_evaluate (s : Calculator η) (line : String) :
    (evaluate o s line).events.filterMap Event.stored? = (s.exec line true).saved.toList := by
  simp only [evaluate, List.filterMap_append, stored_storing]
  split
  · exact List.append_nil _
  · rw [stored_failure, List.append_nil]

/-- A command stores nothing, and changes at most what the session shows of the last line. -/
theorem command_idle (s : Calculator η) {c : Command} (hc : c ≠ .quit) :
    (command o s c).goesOn = true ∧ Session.Agrees (command o s c).session s ∧
      (command o s c).events.filterMap Event.stored? = [] := by
  cases c with
  | quit => exact absurd rfl hc
  | help | history | vars | state => exact ⟨rfl, .refl s, rfl⟩
  | parse input =>
    simp only [command]
    split <;> exact ⟨rfl, .refl s, rfl⟩
  | preview input =>
    refine ⟨rfl, (Session.exec_false frontend honest_engine s input).2.2.2.1, ?_⟩
    simp only [command]
    split
    · rfl
    · exact stored_failure _ _

/-- What a line can do: it ends the conversation, or it is an input and run without the blanks
around it, or it has no part in the state. -/
theorem step_cases (s : Calculator η) (line : String) :
    (ends line = true ∧ step o s line = { session := s, events := [], goesOn := false }) ∨
      (ends line = false ∧ isInput line = true ∧
        step o s line = evaluate o s (Text.trim line)) ∨
      (ends line = false ∧ isInput line = false ∧ (step o s line).goesOn = true ∧
        Session.Agrees (step o s line).session s ∧
        (step o s line).events.filterMap Event.stored? = []) := by
  have hends : (Text.trim line).toList.head? ≠ some ':' → ends line = false := fun h =>
    Bool.eq_false_iff.mpr fun h' => h (head?_of_ends h')
  unfold step
  split
  next hblank =>
    have hhead := Text.isBlankText_iff.mp hblank
    refine .inr (.inr ⟨hends (by rw [hhead]; nofun), ?_, rfl, .refl s, rfl⟩)
    rw [Bool.eq_false_iff, Ne, isInput_iff, hblank]
    exact fun h => Bool.noConfusion h.1
  next hblank =>
    have hidle (hinput : Command.read line ≠ .input) (hquit : Command.read line ≠ .command .quit) :
        ends line = false ∧ isInput line = false :=
      ⟨Bool.eq_false_iff.mpr fun h => hquit (read_eq_quit_iff.mpr h),
        Bool.eq_false_iff.mpr fun h => hinput (read_eq_input_iff.mpr (isInput_iff.mp h).2)⟩
    split
    next hread =>
      have hhead := read_eq_input_iff.mp hread
      exact .inr (.inl ⟨hends hhead, isInput_iff.mpr ⟨Bool.eq_false_iff.mpr hblank, hhead⟩, rfl⟩)
    next hread =>
      obtain ⟨hends, hinput⟩ := hidle (by rw [hread]; nofun) (by rw [hread]; nofun)
      exact .inr (.inr ⟨hends, hinput, rfl, .refl s, rfl⟩)
    next usage hread =>
      obtain ⟨hends, hinput⟩ := hidle (by rw [hread]; nofun) (by rw [hread]; nofun)
      exact .inr (.inr ⟨hends, hinput, rfl, .refl s, rfl⟩)
    next c hread =>
      by_cases hc : c = .quit
      · subst hc
        exact .inl ⟨read_eq_quit_iff.mp hread, rfl⟩
      · have hne : Command.read line ≠ .command .quit := by
          rw [hread]
          exact fun h => hc (Reading.command.inj h)
        obtain ⟨hends, hinput⟩ := hidle (by rw [hread]; nofun) hne
        exact .inr (.inr ⟨hends, hinput, command_idle o s hc⟩)

/-! ## All lines -/

theorem run_cons_of_goesOn {s : Calculator η} {line : String} (h : (step o s line).goesOn = true)
    (lines : List String) :
    run o s (line :: lines) = ((run o (step o s line).session lines).1,
      (step o s line).events ++ (run o (step o s line).session lines).2) := by
  rw [run, if_pos h]

theorem step_of_isInput (s : Calculator η) {line : String} (h : isInput line = true) :
    step o s line = evaluate o s (Text.trim line) := by
  rcases step_cases o s line with ⟨hends, -⟩ | ⟨-, -, hstep⟩ | ⟨-, hnot, -⟩
  · exact absurd (head?_of_ends hends) (isInput_iff.mp h).2
  · exact hstep
  · rw [h] at hnot
    cases hnot

/-- The run lemma: the conversation agrees with the run of its inputs, and they store the same. -/
theorem agrees_run {s t : Calculator η} (hst : Session.Agrees s t) (lines : List String) :
    let conversed := run o s lines
    let calls := (inputs lines).map fun input => Session.Call.exec input true
    let called := Session.run frontend engine t calls
    Session.Agrees conversed.1 called.1 ∧
      conversed.2.filterMap Event.stored? = called.2.filterMap Session.Answer.saved? := by
  induction lines generalizing s t with
  | nil => exact ⟨hst, rfl⟩
  | cons line lines ih =>
    rcases step_cases o s line with ⟨hends, hstep⟩ | ⟨hends, hinput, hstep⟩ |
        ⟨hends, hinput, hgoes, hagrees, hstored⟩
    · have hinputs : inputs (line :: lines) = [] := by simp [inputs, hends]
      rw [hinputs, run, hstep]
      exact ⟨hst, rfl⟩
    · obtain ⟨hagrees, hsaved⟩ := hst.exec frontend honest_engine (Text.trim line)
      obtain ⟨hlast, hrest⟩ := ih hagrees
      rw [inputs_cons lines hends, if_pos hinput,
        run_cons_of_goesOn o (by rw [hstep]; rfl), hstep]
      refine ⟨hlast, ?_⟩
      rw [List.filterMap_append, stored_evaluate, List.map_cons, Session.saved_run_exec, ← hsaved]
      exact congrArg (_ ++ ·) hrest
    · obtain ⟨hlast, hrest⟩ := ih (hagrees.trans hst)
      rw [inputs_cons lines hends, hinput, if_neg Bool.false_ne_true,
        run_cons_of_goesOn o hgoes]
      exact ⟨hlast, by rw [List.filterMap_append, hstored, List.nil_append, hrest]⟩

end Repl

end Console

end Abacus
