import Abacus.Console.Palette

/-!
# Marked texts

A palette that is switched on wraps texts in escape sequences, and one that is switched off leaves
them as they are.  To compare the two, one has to know which escape sequences the palette has put
there: a text may have come with some of its own, and these are to stay.

So `Markup` says how a text is put together, whatever the palette, and `Markup.written` what a
palette makes of it.  In what is written, `Markup.stretches` tells the escape sequences of the
palette apart from everything else (`join_stretches`), and `Markup.bare` is the coloured text
without them.

The bare text is the one without colours, unless a column is filled after its contents have been
coloured: then the escape sequences count for its width.  `Markup.bare_eq_written_iff` says that
there is no other exception.
-/

namespace Abacus.Console

open Text (padLeft)

/-- A text that can be coloured. -/
inductive Markup where
  | text (s : String)
  /-- Set off in this way. -/
  | paint (how : Paint) (m : Markup)
  | append (m n : Markup)
  /-- Preceded by blanks that fill a column.  Its width counts all that is written. -/
  | column (width : Nat) (m : Markup)
  deriving DecidableEq, Repr

/-- A part of a text that has been written. -/
inductive Stretch where
  | plain (s : String)
  /-- An escape sequence of the palette. -/
  | escape (s : String)
  deriving DecidableEq, Repr

namespace Stretch

def text : Stretch → String
  | plain s => s
  | escape s => s

/-- What is no escape sequence of the palette. -/
def plain? : Stretch → Option String
  | plain s => some s
  | escape _ => none

end Stretch

namespace Markup

instance : Append Markup := ⟨append⟩

/-- The texts one after the other. -/
def join : List Markup → Markup
  | [] => .text ""
  | m :: ms => m ++ join ms

/-- What a palette makes of a text. -/
def written (p : Palette) : Markup → String
  | text s => s
  | paint how m => p.paint how (m.written p)
  | append m n => m.written p ++ n.written p
  | column width m => padLeft width (m.written p)

/-- So many blanks. -/
def blanks (n : Nat) : String := String.ofList (List.replicate n ' ')

/-- The parts of what is written, with the escape sequences of the palette apart. -/
def stretches (p : Palette) : Markup → List Stretch
  | text s => [.plain s]
  | paint how m =>
      if p.enabled then
        .escape ("\x1b[" ++ how.code ++ "m") :: (m.stretches p ++ [.escape "\x1b[0m"])
      else m.stretches p
  | append m n => m.stretches p ++ n.stretches p
  | column width m => .plain (blanks (width - (m.written p).length)) :: m.stretches p

/-- The coloured text without the escape sequences that colour it. -/
def bare (m : Markup) : String := String.join ((m.stretches ⟨true⟩).filterMap Stretch.plain?)

/-- All columns are filled with as many blanks as without colours. -/
def Aligned : Markup → Prop
  | text _ => True
  | paint _ m => m.Aligned
  | append m n => m.Aligned ∧ n.Aligned
  | column width m =>
      width - (m.written ⟨true⟩).length = width - (m.written ⟨false⟩).length ∧ m.Aligned

/-! ## Writing -/

@[simp] theorem written_text (p : Palette) (s : String) : (text s).written p = s := rfl

@[simp] theorem written_paint (p : Palette) (how : Paint) (m : Markup) :
    (paint how m).written p = p.paint how (m.written p) := rfl

@[simp] theorem written_append (p : Palette) (m n : Markup) :
    (m ++ n).written p = m.written p ++ n.written p := rfl

@[simp] theorem written_column (p : Palette) (width : Nat) (m : Markup) :
    (column width m).written p = padLeft width (m.written p) := rfl

theorem join_singleton (s : String) : String.join [s] = s := by
  rw [String.join_cons, String.join_nil, String.append_empty]

theorem written_join (p : Palette) (ms : List Markup) :
    (join ms).written p = String.join (ms.map (written p)) := by
  induction ms with
  | nil => rfl
  | cons m ms ih => rw [join, written_append, ih, List.map_cons, String.join_cons]

theorem written_join_append (ms ns : List Markup) (p : Palette) :
    (join (ms ++ ns)).written p = (join ms).written p ++ (join ns).written p := by
  rw [written_join, List.map_append, String.join_append, ← written_join, ← written_join]

/-- Nothing else is written than the parts. -/
theorem join_stretches (p : Palette) (m : Markup) :
    String.join ((m.stretches p).map Stretch.text) = m.written p := by
  induction m with
  | text s => exact join_singleton s
  | paint how m ih =>
    rw [stretches, written, Palette.paint]
    split
    · rw [List.map_cons, List.map_append, String.join_cons, String.join_append, ih]
      exact String.append_assoc.symm
    · exact ih
  | append m n ihm ihn =>
    rw [stretches, written, List.map_append, String.join_append, ihm, ihn]
  | column width m ih =>
    rw [stretches, written, List.map_cons, String.join_cons, ih]
    rfl

/-! ## Taking the colours away -/

theorem bare_text (s : String) : (text s).bare = s := join_singleton s

theorem bare_paint (how : Paint) (m : Markup) : (paint how m).bare = m.bare := by
  have hstretches : (paint how m).stretches ⟨true⟩ = .escape ("\x1b[" ++ how.code ++ "m") ::
      (m.stretches ⟨true⟩ ++ [.escape "\x1b[0m"]) := rfl
  rw [bare, hstretches, List.filterMap_cons_none rfl, List.filterMap_append]
  exact congrArg String.join (List.append_nil _)

theorem bare_append (m n : Markup) : (append m n).bare = m.bare ++ n.bare := by
  rw [bare, stretches, List.filterMap_append, String.join_append, bare, bare]

theorem bare_column (width : Nat) (m : Markup) :
    (column width m).bare = blanks (width - (m.written ⟨true⟩).length) ++ m.bare := by
  have hplain (s : String) : Stretch.plain? (.plain s) = some s := rfl
  rw [bare, stretches, List.filterMap_cons_some (hplain _), String.join_cons, bare]

theorem length_blanks (n : Nat) : (blanks n).length = n := by
  rw [blanks, String.length_ofList, List.length_replicate]

theorem blanks_inj {n k : Nat} : blanks n = blanks k ↔ n = k := by
  refine ⟨fun h => ?_, congrArg blanks⟩
  rw [← length_blanks n, h, length_blanks]

theorem length_padLeft (width : Nat) (s : String) :
    (padLeft width s).length = width - s.length + s.length := by
  rw [padLeft, String.length_append, String.length_ofList, List.length_replicate]

theorem length_paint (how : Paint) (s : String) :
    s.length ≤ (Palette.paint ⟨true⟩ how s).length := by
  simp only [Palette.paint, if_true, String.length_append]
  omega

/-- Colours only make a text longer. -/
theorem length_written_le (m : Markup) :
    (m.written ⟨false⟩).length ≤ (m.written ⟨true⟩).length := by
  induction m with
  | text s => exact Nat.le_refl _
  | paint how m ih => exact Nat.le_trans ih (length_paint how _)
  | append m n ihm ihn =>
    rw [written, written, String.length_append, String.length_append]
    exact Nat.add_le_add ihm ihn
  | column width m ih =>
    rw [written, written, length_padLeft, length_padLeft]
    omega

/-- Where colours count for the width of a column, blanks are missing and none are added. -/
theorem length_bare_le (m : Markup) : m.bare.length ≤ (m.written ⟨false⟩).length := by
  induction m with
  | text s => exact Nat.le_of_eq (congrArg String.length (bare_text s))
  | paint how m ih =>
    rw [bare_paint]
    exact ih
  | append m n ihm ihn =>
    rw [bare_append, written, String.length_append, String.length_append]
    exact Nat.add_le_add ihm ihn
  | column width m ih =>
    have hwritten := length_written_le m
    rw [bare_column, written, String.length_append, length_blanks, length_padLeft]
    omega

/-- Two texts of two parts each, neither part longer than its counterpart. -/
theorem append_eq_append_iff_of_le {s t s' t' : String} (hs : s.length ≤ s'.length)
    (ht : t.length ≤ t'.length) : s ++ t = s' ++ t' ↔ s = s' ∧ t = t' := by
  refine ⟨fun h => ?_, fun ⟨hs, ht⟩ => by rw [hs, ht]⟩
  have hlength := congrArg String.length h
  rw [String.length_append, String.length_append] at hlength
  have hparts := List.append_inj (by rw [← String.toList_append, h, String.toList_append])
    (show s.toList.length = s'.toList.length by
      rw [String.length_toList, String.length_toList]
      omega)
  exact ⟨String.toList_inj.mp hparts.1, String.toList_inj.mp hparts.2⟩

/-- **Colours can be taken away again.**  Without the escape sequences of the palette, the coloured
text is the text without colours if and only if its columns are aligned. -/
theorem bare_eq_written_iff (m : Markup) : m.bare = m.written ⟨false⟩ ↔ m.Aligned := by
  induction m with
  | text s => exact iff_of_true (bare_text s) trivial
  | paint how m ih =>
    rw [bare_paint]
    exact ih
  | append m n ihm ihn =>
    rw [bare_append, written, append_eq_append_iff_of_le (length_bare_le m) (length_bare_le n),
      ihm, ihn, Aligned]
  | column width m ih =>
    have hblanks : (blanks (width - (m.written ⟨true⟩).length)).length ≤
        (blanks (width - (m.written ⟨false⟩).length)).length := by
      have hwritten := length_written_le m
      rw [length_blanks, length_blanks]
      omega
    have hpad : padLeft width (m.written ⟨false⟩) =
        blanks (width - (m.written ⟨false⟩).length) ++ m.written ⟨false⟩ := rfl
    rw [bare_column, written, hpad, append_eq_append_iff_of_le hblanks (length_bare_le m),
      blanks_inj, ih, Aligned]

theorem aligned_join {ms : List Markup} : (join ms).Aligned ↔ ∀ m ∈ ms, m.Aligned := by
  induction ms with
  | nil => exact iff_of_true trivial (List.forall_mem_nil _)
  | cons m ms ih => rw [List.forall_mem_cons, ← ih]; rfl

end Markup

end Abacus.Console
