import Abacus.Settings
import Abacus.Console.Editor
import Abacus.Proofs.Highlighting
import Abacus.Proofs.MarkedConversation

/-!
# Turns in marked texts

While a line is being typed, the editor asks for texts in colours as well: for the prompt, for the
line and for what to suggest after it.  Here these are put together as marked texts, and so is all
that a turn shows, from the first text of the editor to the answer.  None of it takes a palette, and
the console writes out exactly this, in the colours of its palette (`take_eq_toTaken`).

A palette that is switched off does not even look for tokens in the line.  It shows the same
nevertheless, since a line whose spans are not set off is the line (`written_highlighted`).
-/

namespace Abacus.Console

variable {η : Type}

namespace Markup

/-- What is left of a line, with the spans of its tokens set off. -/
def highlightFrom (done : Nat) (left : List Char) : List Token → Markup
  | [] => .text (String.ofList left)
  | t :: ts =>
      if t.kind = .ending ∨ t.pos < done ∨ spanStop t ts < t.pos then .text (String.ofList left)
      else
        (Text.splitAtByte? (t.pos - done) left).elim (.text (String.ofList left)) fun front =>
          (Text.splitAtByte? (spanStop t ts - t.pos) front.2).elim (.text (String.ofList left))
            fun back =>
              .text (String.ofList front.1) ++
                .paint (groupPaint t.kind.group) (.text (String.ofList back.1)) ++
                highlightFrom (spanStop t ts) back.2 ts

/-- A line, set off by its tokens if it is a statement. -/
def highlighted (line : String) : Markup :=
  if Typing.isCommandLine line then .text line
  else highlightFrom 0 line.toList ((Calculator.parse line).toOption.getD [])

/-- What stands in front of a line. -/
def prompt (s : String) : Markup := .paint .green (.text s) ++ .text " "

theorem written_highlightFrom (p : Palette) (done : Nat) (left : List Char) (ts : List Token) :
    (highlightFrom done left ts).written p = Console.highlightFrom p done left ts := by
  induction ts generalizing done left with
  | nil => rfl
  | cons t ts ih =>
    rw [highlightFrom, highlightFrom_cons]
    split
    · rfl
    · cases Text.splitAtByte? (t.pos - done) left with
      | none => rfl
      | some front =>
        simp only [Option.elim_some]
        cases Text.splitAtByte? (spanStop t ts - t.pos) front.2 with
        | none => rfl
        | some back =>
          simp only [Option.elim_some, written_append, ih]
          rfl

/-- Without colours, whatever the tokens are, nothing but the line is written. -/
theorem written_highlightFrom_disabled (done : Nat) (left : List Char) (ts : List Token) :
    (highlightFrom done left ts).written ⟨false⟩ = String.ofList left := by
  obtain ⟨spans, htext, hshown⟩ := exists_spans done left ts
  rw [written_highlightFrom, hshown, ← htext]
  exact congrArg String.join (List.map_congr_left fun s _ => written_disabled s)

theorem written_highlighted_disabled (line : String) :
    (highlighted line).written ⟨false⟩ = line := by
  unfold highlighted
  split
  · rfl
  · rw [written_highlightFrom_disabled, String.ofList_toList]

theorem written_highlighted (p : Palette) (line : String) :
    (highlighted line).written p = Typing.highlight p line := by
  obtain ⟨enabled⟩ := p
  cases enabled with
  | false => exact written_highlighted_disabled line
  | true =>
    unfold highlighted Typing.highlight
    cases Typing.isCommandLine line with
    | true => rfl
    | false =>
      simp only [Bool.false_eq_true, if_false, written_highlightFrom]
      cases Calculator.parse line <;> rfl

end Markup

namespace Marked

/-- What a turn leads to, with texts that have not been written yet. -/
structure Taken (η : Type) where
  session : Calculator η
  events : List (Marked η)
  course : Repl.Course := .goesOn

def Taken.toTaken (p : Palette) (taken : Taken η) : Repl.Taken η where
  session := taken.session
  events := taken.events.map (event p)
  course := taken.course

variable (r : ReplSettings)

/-- How the settings have a conversation shown. -/
def optionsOf (p : Palette) : Repl.Options where
  palette := p
  groupDigits := r.groupDigits

/-- How the settings have lines asked for. -/
def askingOf (p : Palette) : Repl.Asking where
  prompt := p.paint .green r.prompt ++ " "
  suggests := r.preview

def display (s : Calculator η) : Display → Calculator η × List (Marked η)
  | .own text => (s, [.out (.text text)])
  | .prompt => (s, [.out (.prompt r.prompt)])
  | .line text => (s, [.out (.highlighted text)])
  | .suggestion text cursor =>
      let (after, hint) := Typing.hint s r.preview text cursor
      (after, hint.toList.map fun result => .out (.paint .gray (.text result)))

def displayAll (s : Calculator η) : List Display → Calculator η × List (Marked η)
  | [] => (s, [])
  | d :: ds =>
      let (s, events) := display r s d
      let (s, more) := displayAll s ds
      (s, events ++ more)

def receive (s : Calculator η) : Reply → Taken η
  | .line line =>
      let next := step r.groupDigits s line
      { session := next.session, events := next.events
        course := if next.goesOn then .goesOn else .over }
  | .interrupted =>
      { session := s, events := [.out (.paint .gray (.text "(Ctrl-D to exit)") ++ .text "\n")] }
  | .ended => { session := s, events := [], course := .over }
  | .failed message =>
      { session := s, events := [complaint "error:" message], course := .over }
  | .garbled => { session := s, events := [], course := .broken }

def take (s : Calculator η) (turn : Turn) : Taken η :=
  let (s, events) := displayAll r s turn.displays
  let taken := receive r s turn.reply
  { taken with events := events ++ taken.events }

/-- Nothing is shown while lines are piped in, so a turn is what its line leads to. -/
theorem take_piped_some (s : Calculator η) (line : String) :
    take r s (.piped (some line)) =
      { session := (step r.groupDigits s line).session
        events := (step r.groupDigits s line).events
        course := if (step r.groupDigits s line).goesOn then .goesOn else .over } := rfl

theorem take_piped_none (s : Calculator η) :
    take r s (.piped none) = { session := s, events := [], course := .broken } := rfl

/-! ### In colours -/

variable (p : Palette)

theorem display_eq_map (s : Calculator η) (d : Display) :
    Repl.display p (askingOf r p) s d = ((display r s d).1, (display r s d).2.map (event p)) := by
  cases d with
  | own text => rfl
  | prompt => rfl
  | line text =>
    rw [Repl.display, ← Markup.written_highlighted]
    rfl
  | suggestion text cursor =>
    have hsuggests : (askingOf r p).suggests = r.preview := rfl
    simp only [Repl.display, display, hsuggests, List.map_map]
    rfl

theorem displayAll_eq_map (s : Calculator η) (ds : List Display) :
    Repl.displayAll p (askingOf r p) s ds =
      ((displayAll r s ds).1, (displayAll r s ds).2.map (event p)) := by
  induction ds generalizing s with
  | nil => rfl
  | cons d ds ih => simp only [Repl.displayAll, displayAll, display_eq_map, ih, List.map_append]

theorem receive_eq_toTaken (s : Calculator η) (reply : Reply) :
    Repl.receive (optionsOf r p) s reply = (receive r s reply).toTaken p := by
  cases reply with
  | line line =>
    have hstep := step_eq_toStep (optionsOf r p) s line
    simp only [Repl.receive, receive, hstep]
    rfl
  | interrupted => rfl
  | ended => rfl
  | failed message => rfl
  | garbled => rfl

/-- The console writes the marked texts of a turn in the colours of its palette. -/
theorem take_eq_toTaken (s : Calculator η) (turn : Turn) :
    Repl.take (optionsOf r p) (askingOf r p) s turn = (take r s turn).toTaken p := by
  have hpalette : (optionsOf r p).palette = p := rfl
  simp only [Repl.take, take, hpalette, displayAll_eq_map, receive_eq_toTaken, Taken.toTaken,
    List.map_append]

end Marked

end Abacus.Console
