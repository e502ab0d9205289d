import Abacus.Console.Completion
import Abacus.Proofs.PipedLines

/-!
# What completion offers

Completion looks at the text in front of the cursor.  Its last word is the longest run of letters,
digits, underscores and colons at its end (`IsLastWord`), and what is offered extends this word in
every way that its place allows and in no other (`Offered`).  Nothing is offered for no word.

The place where the word starts is counted in bytes, and the character in front of the word is taken
to be one byte long.  If it is longer, the count ends inside it, no word can start there, and
completion has no answer (`wordStart?_eq_none_iff`).  In every other case it answers with the place
where the word starts.
-/

namespace Abacus.Console.Completion

open Text (isBlank byteSize)

/-- The word is the longest run of its characters at the end of the text. -/
structure IsLastWord (head word : List Char) : Prop where
  suffix : word <:+ head
  chars : ∀ c ∈ word, isWordChar c = true
  longest : ∀ run, run <:+ head → (∀ c ∈ run, isWordChar c = true) → run <:+ word

/-- The text ends with the start of a choice of output format, and perhaps with blanks. -/
def AfterOutput (before : List Char) : Prop :=
  ∃ front gap, before = front ++ "output(".toList ++ gap ∧ ∀ c ∈ gap, isBlank c = true

/-- What may be offered for a word that comes after some text. -/
inductive Offered (before word : List Char) (bindings : List String) (w : String) : Prop where
  /-- The word begins the line, with a colon. -/
  | command : word.head? = some ':' → (∀ c ∈ before, isBlank c = true) → w ∈ commands →
      Offered before word bindings w
  | format : word.head? ≠ some ':' → AfterOutput before → w ∈ formats →
      Offered before word bindings w
  | name : word.head? ≠ some ':' → ¬ AfterOutput before → w ∈ functions ∨ w ∈ bindings →
      Offered before word bindings w

/-! ## The last word -/

theorem splitLastWord_append (head : List Char) :
    (splitLastWord head).1 ++ (splitLastWord head).2 = head := by
  rw [splitLastWord, ← List.reverse_append, List.takeWhile_append_dropWhile, List.reverse_reverse]

theorem isWordChar_of_mem_splitLastWord {head : List Char} {c : Char}
    (h : c ∈ (splitLastWord head).2) : isWordChar c = true :=
  List.mem_takeWhile_imp (List.mem_reverse.mp h)

/-- In front of the last word is a character that belongs to no word. -/
theorem isWordChar_of_mem_getLast? {head : List Char} {c : Char}
    (h : c ∈ (splitLastWord head).1.getLast?) : isWordChar c = false := by
  rw [splitLastWord, List.getLast?_reverse] at h
  simpa only [Option.mem_def.mp h] using List.head?_dropWhile_not isWordChar head.reverse

theorem isLastWord_splitLastWord (head : List Char) : IsLastWord head (splitLastWord head).2 := by
  have hsplit := splitLastWord_append head
  have hsuffix : (splitLastWord head).2 <:+ head := ⟨_, hsplit⟩
  refine ⟨hsuffix, fun c => isWordChar_of_mem_splitLastWord, fun run hrun hchars => ?_⟩
  rcases List.suffix_or_suffix_of_suffix hrun hsuffix with h | ⟨extra, hextra⟩
  · exact h
  · -- A longer run would reach over the character in front of the last word.
    obtain ⟨front, hfront⟩ := hrun
    have hbefore : (splitLastWord head).1 = front ++ extra := by
      rw [← hsplit, ← hextra, ← List.append_assoc] at hfront
      exact (List.append_cancel_right hfront).symm
    cases hlast : extra.getLast? with
    | none =>
      rw [List.getLast?_eq_none_iff.mp hlast, List.nil_append] at hextra
      exact hextra ▸ List.suffix_rfl
    | some c =>
      have hmem : c ∈ run := hextra ▸ List.mem_append_left _ (List.mem_of_getLast? hlast)
      have hend : c ∈ (splitLastWord head).1.getLast? := by
        rw [hbefore, List.getLast?_append, hlast]
        rfl
      exact absurd ((hchars c hmem).symm.trans (isWordChar_of_mem_getLast? hend)) (by decide)

/-! ## Where it starts -/

theorem wordStart?_eq_none_iff (before : List Char) :
    wordStart? before = none ↔ ∃ c ∈ before.getLast?, 1 < c.utf8Size := by
  unfold wordStart?
  cases before.getLast? with
  | none => simp
  | some c =>
    have hpos := Char.utf8Size_pos c
    simp only [Option.mem_def, Option.some_inj, exists_eq_left', ite_eq_right_iff, reduceCtorEq,
      imp_false]
    omega

theorem wordStart?_eq_some {before : List Char} {start : Nat}
    (h : wordStart? before = some start) : start = byteSize before := by
  unfold wordStart? at h
  split at h
  next hnone =>
    rw [List.getLast?_eq_none_iff.mp hnone]
    exact (Option.some.inj h).symm
  next =>
    split at h
    · exact (Option.some.inj h).symm
    · cases h

/-! ## What is offered -/

theorem endsWithOutput_iff (before : List Char) :
    endsWithOutput before = true ↔ AfterOutput before := by
  rw [endsWithOutput, List.isSuffixOf_iff_suffix]
  constructor
  · rintro ⟨front, hfront⟩
    refine ⟨front, (before.reverse.takeWhile isBlank).reverse, ?_, fun c hc =>
      List.mem_takeWhile_imp (List.mem_reverse.mp hc)⟩
    rw [hfront, Text.dropTrailingBlanks, Text.dropBlanks, ← List.reverse_append,
      List.takeWhile_append_dropWhile, List.reverse_reverse]
  · rintro ⟨front, gap, rfl, hgap⟩
    refine ⟨front, ?_⟩
    -- The parenthesis is no blank.
    have hreverse : (front ++ "output(".toList).reverse =
        "output(".toList.reverse ++ front.reverse := List.reverse_append
    have hparen : Text.dropBlanks ("output(".toList.reverse ++ front.reverse) =
        "output(".toList.reverse ++ front.reverse := rfl
    rw [Text.dropTrailingBlanks_append hgap, Text.dropTrailingBlanks, hreverse, hparen, ← hreverse,
      List.reverse_reverse]

theorem mem_extending (word : List Char) (candidates : List String) (w : String) :
    w ∈ extending word candidates ↔ w ∈ candidates ∧ word <+: w.toList := by
  rw [extending, List.mem_filter, List.isPrefixOf_iff_prefix]

section Words

variable {before word : List Char} {bindings : List String}

/-- Behind a colon, commands are offered, and only at the beginning of a line. -/
theorem offered_iff_of_colon (h : word.head? = some ':') (w : String) :
    Offered before word bindings w ↔ (∀ c ∈ before, isBlank c = true) ∧ w ∈ commands := by
  constructor
  · rintro (⟨-, hblank, hmem⟩ | ⟨hne, -, -⟩ | ⟨hne, -, -⟩)
    · exact ⟨hblank, hmem⟩
    · exact absurd h hne
    · exact absurd h hne
  · exact fun ⟨hblank, hmem⟩ => .command h hblank hmem

/-- Without a colon, formats are offered where one has to be chosen, and names elsewhere. -/
theorem offered_iff_of_ne_colon (h : word.head? ≠ some ':') (w : String) :
    Offered before word bindings w ↔
      (AfterOutput before ∧ w ∈ formats) ∨
        (¬ AfterOutput before ∧ (w ∈ functions ∨ w ∈ bindings)) := by
  constructor
  · rintro (⟨hcolon, -, -⟩ | ⟨-, hafter, hmem⟩ | ⟨-, hnot, hmem⟩)
    · exact absurd hcolon h
    · exact .inl ⟨hafter, hmem⟩
    · exact .inr ⟨hnot, hmem⟩
  · rintro (⟨hafter, hmem⟩ | ⟨hnot, hmem⟩)
    · exact .format h hafter hmem
    · exact .name h hnot hmem

theorem mem_words_of_colon (h : word.head? = some ':') (w : String) :
    w ∈ words before word bindings ↔ word <+: w.toList ∧ Offered before word bindings w := by
  have hblank : (Text.dropBlanks before).isEmpty = true ↔ ∀ c ∈ before, isBlank c = true := by
    rw [List.isEmpty_iff, Text.dropBlanks_eq_nil_iff, List.all_eq_true]
  obtain ⟨cs, rfl⟩ := List.head?_eq_some_iff.mp h
  rw [offered_iff_of_colon h, ← hblank, words]
  split
  next hempty => rw [mem_extending, and_comm, and_iff_right hempty]
  next hempty => exact iff_of_false List.not_mem_nil fun ⟨_, hall, _⟩ => hempty hall

theorem mem_words_of_ne_colon (hne : word ≠ []) (h : word.head? ≠ some ':') (w : String) :
    w ∈ words before word bindings ↔ word <+: w.toList ∧ Offered before word bindings w := by
  obtain ⟨c, cs, rfl⟩ := List.exists_cons_of_ne_nil hne
  have hc : c ≠ ':' := fun hc => h (congrArg some hc)
  have hwords : words before (c :: cs) bindings =
      if endsWithOutput before then extending (c :: cs) formats
      else extending (c :: cs) (functions ++ bindings) := by
    unfold words
    split
    next heq => cases heq
    next heq => exact absurd (List.cons.inj heq).1 hc
    next => rfl
  rw [offered_iff_of_ne_colon h, hwords, ← endsWithOutput_iff]
  cases endsWithOutput before with
  | true => rw [if_pos rfl, mem_extending]; simp [and_comm]
  | false => rw [if_neg Bool.false_ne_true, mem_extending, List.mem_append]; simp [and_comm]

/-- **What is offered extends the word, and its place allows it.** -/
theorem mem_words_iff (w : String) :
    w ∈ words before word bindings ↔
      word ≠ [] ∧ word <+: w.toList ∧ Offered before word bindings w := by
  by_cases hne : word = []
  · subst hne
    exact iff_of_false List.not_mem_nil fun h => h.1 rfl
  · rw [and_iff_right hne]
    by_cases hcolon : word.head? = some ':'
    · exact mem_words_of_colon hcolon w
    · exact mem_words_of_ne_colon hne hcolon w

end Words

/-- Completion cuts the line at the cursor and looks at what is in front of it. -/
theorem complete?_append (head tail : String) (bindings : List String) :
    complete? (head ++ tail) (Text.size head) bindings =
      (wordStart? (splitLastWord head.toList).1).map fun start =>
        (start, words (splitLastWord head.toList).1 (splitLastWord head.toList).2 bindings) := by
  have hcut : Text.splitAtByte? (Text.size head) (head ++ tail).toList =
      some (head.toList, tail.toList) :=
    Text.splitAtByte?_eq_some_iff.mpr ⟨String.toList_append, rfl⟩
  simp only [complete?, hcut, Option.bind_eq_bind, Option.bind_some]
  cases wordStart? (splitLastWord head.toList).1 <;> rfl

/-- **Completion extends the last word, if that can be placed.**  Whatever the line, and wherever in
it the cursor is between two characters:

* The text in front of the cursor ends with the word, which is the longest run of its characters.
* Completion has no answer exactly if the character in front of the word is longer than a byte.
* If it has one, it starts where the word does, and it offers exactly the extensions of the word
  that its place allows. -/
theorem completion_extends_word (head tail : String) (bindings : List String) :
    let before := (splitLastWord head.toList).1
    let word := (splitLastWord head.toList).2
    head.toList = before ++ word ∧ IsLastWord head.toList word ∧
      (complete? (head ++ tail) (Text.size head) bindings = none ↔
        ∃ c ∈ before.getLast?, 1 < c.utf8Size) ∧
      ∀ start ws, complete? (head ++ tail) (Text.size head) bindings = some (start, ws) →
        start = byteSize before ∧
          ∀ w, w ∈ ws ↔ word ≠ [] ∧ word <+: w.toList ∧ Offered before word bindings w := by
  intro before word
  rw [complete?_append]
  refine ⟨(splitLastWord_append _).symm, isLastWord_splitLastWord _, ?_, fun start ws h => ?_⟩
  · rw [Option.map_eq_none_iff, wordStart?_eq_none_iff]
  · obtain ⟨start, hstart, heq⟩ := Option.map_eq_some_iff.mp h
    obtain ⟨rfl, rfl⟩ := Prod.mk.inj heq
    exact ⟨wordStart?_eq_some hstart, mem_words_iff⟩

/-- Behind a blank of two bytes a name that is known cannot be completed.  A format can be, and so
can a command behind such a blank, with another one in between. -/
theorem completion_extends_word_blanks :
    complete? "x =\u00a0ma" 7 ["mask"] = none ∧
      complete? "output( h)" 9 ["hue"] = some (8, ["hex"]) ∧
      (∀ w, w ∈ ["hex"] ↔ "h".toList ≠ [] ∧ "h".toList <+: w.toList ∧
        Offered "output( ".toList "h".toList ["hue"] w) ∧
      complete? "\u00a0 :h" 5 [] = some (3, [":help", ":history"]) := by
  have hoffered : complete? "output( h)" 9 ["hue"] = some (8, ["hex"]) := by decide +kernel
  refine ⟨?_, hoffered, ?_, by decide +kernel⟩
  · exact (completion_extends_word "x =\u00a0ma" "" ["mask"]).2.2.1.mpr
      ⟨'\u00a0', by decide +kernel, by decide⟩
  · exact ((completion_extends_word "output( h" ")" ["hue"]).2.2.2 8 ["hex"] hoffered).2

end Abacus.Console.Completion
