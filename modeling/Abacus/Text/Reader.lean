/-!
# Readers

A reader takes a text and answers with what it read at the front and the rest of the
text, or fails.  The formats that this program reads are given by readers; this module
holds the few that belong to no format.
-/

namespace Abacus.Text

/-- A run of characters of a class reaches up to the first one that is not of the class. -/
theorem run_append {p : Char → Bool} {run rest : List Char} (hrun : ∀ c ∈ run, p c = true)
    (hrest : ∀ c ∈ rest.head?, p c = false) :
    (run ++ rest).takeWhile p = run ∧ (run ++ rest).dropWhile p = rest := by
  rw [List.takeWhile_append_of_pos hrun, List.dropWhile_append_of_pos hrun]
  cases rest with
  | nil => simp
  | cons c rest =>
    have hc := hrest c rfl
    simp [hc]

/-- Reads a value off the front of a text. -/
abbrev Reader (α : Type) := List Char → Option (α × List Char)

namespace Reader

/-- These characters. -/
def word : List Char → Reader Unit
  | [], cs => some ((), cs)
  | _ :: _, [] => none
  | w :: ws, c :: cs => if c = w then word ws cs else none

/-- A character of a class. -/
def one (p : Char → Bool) : Reader Char
  | [] => none
  | c :: cs => if p c then some (c, cs) else none

/-- The longest run of characters of a class, which may not be empty. -/
def some1 (p : Char → Bool) : Reader (List Char) := fun cs =>
  let run := cs.takeWhile p
  if run.isEmpty then none else some (run, cs.dropWhile p)

/-- So many characters of a class. -/
def exactly (p : Char → Bool) : Nat → Reader (List Char)
  | 0, cs => some ([], cs)
  | _ + 1, [] => none
  | n + 1, c :: cs =>
      if p c then (exactly p n cs).map fun r => (c :: r.1, r.2) else none

theorem some1_append {p : Char → Bool} {run rest : List Char} (hne : run ≠ [])
    (hrun : ∀ c ∈ run, p c = true) (hrest : ∀ c ∈ rest.head?, p c = false) :
    some1 p (run ++ rest) = some (run, rest) := by
  obtain ⟨htake, hdrop⟩ := run_append hrun hrest
  simp [some1, htake, hdrop, hne]

theorem forall_mem_of_some1 {p : Char → Bool} {cs run rest : List Char}
    (h : some1 p cs = some (run, rest)) : ∀ c ∈ run, p c = true := by
  simp only [some1] at h
  split at h
  next => cases h
  next =>
    obtain ⟨rfl, -⟩ := Prod.mk.inj (Option.some.inj h)
    exact fun c hc => List.all_eq_true.mp List.all_takeWhile c hc

/-- A fixed word is read off the front of any text that starts with it. -/
theorem word_append (ws cs : List Char) : word ws (ws ++ cs) = some ((), cs) := by
  induction ws with
  | nil => simp [word]
  | cons w ws ih => simp [word, ih]

end Reader

end Abacus.Text
