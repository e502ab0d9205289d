import Abacus.Console.Input
import Abacus.Console.Repl
import Abacus.Proofs.Layout

/-!
# Lines that are piped in

Texts can be handed to a conversation as one piece of input, each followed by a line feed.  Not
every text arrives as it was sent: a carriage return at its end belongs to the end of the line, and
backspaces in it take effect.

Neither matters for a text that is a statement.  Its tokens are made of printable characters of
ASCII, with nothing but blanks between them (`Token.visible_of_tokensFrom`), so there is no
backspace in it, and a carriage return at its end is a blank, which a conversation drops anyway
(`Console.Repl.step_congr`).
-/

namespace Abacus

/-! ## The characters of tokens -/

namespace Token

open Text (isBlank)

/-- A printable character of ASCII other than the space. -/
def IsVisible (c : Char) : Prop := 0x21 ≤ c.toNat ∧ c.toNat ≤ 0x7E

theorem IsVisible.of_isNumberChar {c : Char} (h : isNumberChar c = true) : IsVisible c := by
  have hrange := toNat_of_isNumberChar h
  exact ⟨by omega, by omega⟩

theorem isNumberChar_of_startsNumber {c : Char} {cs : List Char} (h : startsNumber c cs = true) :
    isNumberChar c = true := by
  rw [startsNumber, Bool.or_eq_true, Bool.and_eq_true, beq_iff_eq] at h
  rcases h with h | ⟨rfl, -⟩
  · simp [isNumberChar, isWordChar, Char.isAlphanum, h]
  · decide

theorem isWordChar_of_startsWord {c : Char} (h : startsWord c = true) : isWordChar c = true := by
  rw [startsWord, isLetter, Bool.or_eq_true, beq_iff_eq] at h
  rcases h with h | rfl
  · simp [isWordChar, Char.isAlphanum, h]
  · decide

theorem isNumberChar_of_isWordChar {c : Char} (h : isWordChar c = true) :
    isNumberChar c = true := by
  rw [isNumberChar, h, Bool.true_or]

theorem visible_of_symbol? {c : Char} {cs : List Char} {kind : Kind} {more : Nat}
    (h : symbol? c cs = some (kind, more)) : ∀ d ∈ c :: cs.take more, IsVisible d := by
  unfold symbol? at h
  split at h <;> cases h <;> simp [IsVisible]

/-- A run that is taken as far as it goes has only characters of its kind. -/
theorem forall_mem_take_takeWhile {p : Char → Bool} {cs : List Char} :
    ∀ d ∈ cs.take (cs.takeWhile p).length, p d = true := by
  intro d hd
  rw [← List.prefix_iff_eq_take.mp (List.takeWhile_prefix p)] at hd
  exact List.mem_takeWhile_imp hd

/-- All characters of a token are visible. -/
theorem visible_of_lexeme {pos : Nat} {c : Char} {cs : List Char} {kind : Kind} {more : Nat}
    (h : lexeme pos c cs = .ok (kind, more)) : ∀ d ∈ c :: cs.take more, IsVisible d := by
  simp only [lexeme] at h
  split at h
  next hnumber =>
    split at h <;> cases h
    refine List.forall_mem_cons.mpr
      ⟨.of_isNumberChar (isNumberChar_of_startsNumber hnumber), fun d hd => ?_⟩
    exact .of_isNumberChar (forall_mem_take_takeWhile d hd)
  next =>
    split at h
    next hword =>
      cases h
      refine List.forall_mem_cons.mpr
        ⟨.of_isNumberChar (isNumberChar_of_isWordChar (isWordChar_of_startsWord hword)),
          fun d hd => ?_⟩
      exact .of_isNumberChar (isNumberChar_of_isWordChar (forall_mem_take_takeWhile d hd))
    next =>
      split at h
      next found hfound =>
        obtain rfl := Except.ok.inj h
        exact visible_of_symbol? hfound
      next => cases h

/-- A text that has tokens consists of visible characters and blanks. -/
theorem visible_of_tokensFrom {pos : Nat} {text : List Char} {ts : List Token}
    (h : tokensFrom pos text = .ok ts) : ∀ c ∈ text, isBlank c = true ∨ IsVisible c := by
  fun_induction tokensFrom pos text generalizing ts with
  | case1 => exact List.forall_mem_nil _
  | case2 pos c cs hc ih => exact List.forall_mem_cons.mpr ⟨.inl hc, ih h⟩
  | case3 => cases h
  | case4 => cases h
  | case5 pos c cs hc kind more hlexeme piece rest hrest =>
    rename_i ih
    have hsplit : c :: cs = piece ++ cs.drop more := by
      rw [List.cons_append, List.take_append_drop]
    rw [hsplit]
    exact List.forall_mem_append.mpr ⟨fun d hd => .inr (visible_of_lexeme hlexeme d hd), ih hrest⟩

end Token

namespace Calculator

/-- A line that is a statement has no backspaces. -/
theorem not_mem_of_statement? {line : String} {s : Statement} (h : statement? line = some s) :
    '\x08' ∉ line.toList := by
  intro hmem
  obtain ⟨ts, -, htokens, -⟩ := exists_tokens h
  rcases Token.visible_of_tokensFrom htokens _ hmem with hblank | hvisible
  · cases hblank
  · exact absurd hvisible.1 (by decide)

end Calculator

/-! ## Lines of a text -/

namespace Text

theorem dropTrailingBlanks_append {w : List Char} (hw : ∀ c ∈ w, isBlank c = true)
    (cs : List Char) : dropTrailingBlanks (cs ++ w) = dropTrailingBlanks cs := by
  rw [dropTrailingBlanks, List.reverse_append, dropBlanks, dropTrailingBlanks, dropBlanks,
    List.dropWhile_append_of_pos fun c hc => hw c (List.mem_reverse.mp hc)]

/-- Blanks behind a text are trimmed with those at its end. -/
theorem trim_append_blanks {w : List Char} (hw : ∀ c ∈ w, isBlank c = true) (cs : List Char) :
    trim (String.ofList (cs ++ w)) = trim (String.ofList cs) := by
  rw [trim, trim, String.toList_ofList, String.toList_ofList]
  congr 1
  by_cases hcs : dropBlanks cs = []
  · have hblank : dropBlanks (cs ++ w) = [] := by
      rw [dropBlanks_eq_nil_iff, List.all_append, (dropBlanks_eq_nil_iff cs).mp hcs, Bool.true_and,
        List.all_eq_true]
      exact hw
    rw [hblank, hcs]
  · have hrest : dropBlanks (cs ++ w) = dropBlanks cs ++ w := by
      unfold dropBlanks at hcs ⊢
      rw [List.dropWhile_append, if_neg (by simpa using hcs)]
    rw [hrest, dropTrailingBlanks_append hw]

end Text

namespace Console.Input

/-- Texts as one piece of input, each followed by a line feed. -/
def piped (texts : List String) : String := String.join (texts.map (· ++ "\n"))

theorem splitLines_cons {line : List Char} (h : '\n' ∉ line) (rest : List Char) :
    splitLines (line ++ '\n' :: rest) = (line ++ ['\n']) :: splitLines rest := by
  induction line with
  | nil => rw [List.nil_append, splitLines, if_pos rfl, List.nil_append]
  | cons c line ih =>
    obtain ⟨hc, hline⟩ := not_or.mp (mt List.mem_cons.mpr h)
    rw [List.cons_append, splitLines, if_neg (Ne.symm hc), ih hline]
    rfl

/-- Each text is a line, though perhaps not as it was. -/
theorem lines_piped_cons {text : String} (h : '\n' ∉ text.toList) (texts : List String) :
    lines (piped (text :: texts)) = clean? (text.toList ++ ['\n']) :: lines (piped texts) := by
  have hlist : (piped (text :: texts)).toList =
      text.toList ++ '\n' :: (piped texts).toList := by
    simp [piped, String.toList_join]
  rw [lines, hlist, splitLines_cons h, List.map_cons, lines]

/-- What a line ends with is its line feed, and perhaps a blank before it. -/
theorem exists_dropEnd_eq (line : List Char) :
    ∃ after, (∀ c ∈ after, Text.isBlank c = true) ∧
      line = dropEnd (line ++ ['\n']) ++ after := by
  unfold dropEnd
  rw [List.reverse_append, List.reverse_singleton, List.singleton_append]
  split
  next rev h =>
    refine ⟨['\r'], List.forall_mem_singleton.mpr (by decide), ?_⟩
    rw [← List.reverse_cons, ← (List.cons.inj h).2, List.reverse_reverse]
  next rev h =>
    refine ⟨[], nofun, ?_⟩
    rw [List.append_nil, ← (List.cons.inj h).2, List.reverse_reverse]
  next hnot => exact absurd rfl (hnot line.reverse)

/-- A text that is a statement arrives as it was, up to the blanks that are trimmed. -/
theorem clean?_of_statement? {text : String} {s : Statement}
    (h : Calculator.statement? text = some s) :
    ∃ line, clean? (text.toList ++ ['\n']) = some line ∧ Text.trim line = Text.trim text := by
  obtain ⟨after, hafter, hsplit⟩ := exists_dropEnd_eq text.toList
  refine ⟨String.ofList (dropEnd (text.toList ++ ['\n'])), ?_, ?_⟩
  · have hmem : '\x08' ∉ dropEnd (text.toList ++ ['\n']) := fun hmem =>
      Calculator.not_mem_of_statement? h (by rw [hsplit]; exact List.mem_append_left _ hmem)
    rw [clean?, Text.typed?, if_neg]
    simpa using hmem
  · rw [← Text.trim_append_blanks hafter, ← hsplit, String.ofList_toList]

end Console.Input

/-- A conversation looks at a line without the blanks around it. -/
theorem Console.Repl.step_congr {η : Type} (o : Options) (s : Calculator η) {line line' : String}
    (h : Text.trim line = Text.trim line') : step o s line = step o s line' := by
  have hblank : Text.isBlankText line = Text.isBlankText line' := by
    rw [Bool.eq_iff_iff, Text.isBlankText_iff, Text.isBlankText_iff, h]
  rw [step, step, hblank, Command.read, Command.read, h]

end Abacus
