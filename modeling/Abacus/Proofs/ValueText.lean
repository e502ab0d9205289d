import Abacus.Proofs.BuiltTables

/-!
# Reading values back

A value on one line is read as itself: the scalars by the modules before this one, and arrays
and tables within braces because their elements and entries are.  The reader descends only so
deep, so a value is read back if it is nested no deeper (`value_inline`).
-/

namespace Abacus.Toml

open Abacus.Text (Reader)
open Abacus.Text.Reader (word)
open Lexical
open Abacus.Toml.Parser (assignment elements value)

/-! ## Depth -/

mutual

/-- How deep arrays and tables are nested in a value. -/
def Value.depth : Value → Nat
  | .array elements => depthElements elements + 1
  | .table entries => depthEntries entries + 1
  | .string _ | .integer _ | .float _ | .boolean _ | .datetime _ => 0

/-- The depth of the deepest element. -/
def depthElements : List Value → Nat
  | [] => 0
  | v :: vs => max v.depth (depthElements vs)

/-- The depth of the deepest entry. -/
def depthEntries : List (String × Value) → Nat
  | [] => 0
  | (_, v) :: es => max v.depth (depthEntries es)

end

theorem depthElements_le_iff {vs : List Value} {n : Nat} :
    depthElements vs ≤ n ↔ ∀ v ∈ vs, v.depth ≤ n := by
  induction vs with
  | nil => simp [depthElements]
  | cons v vs ih => rw [depthElements, max_le_iff, ih, List.forall_mem_cons]

theorem depthEntries_le_iff {es : List (String × Value)} {n : Nat} :
    depthEntries es ≤ n ↔ ∀ e ∈ es, e.2.depth ≤ n := by
  induction es with
  | nil => simp [depthEntries]
  | cons e es ih => rw [depthEntries, max_le_iff, ih, List.forall_mem_cons]

theorem inlineElements_eq (vs : List Value) : inlineElements vs = vs.map inline := by
  induction vs with
  | nil => rfl
  | cons v vs ih => rw [inlineElements, ih, List.map_cons]

/-- An entry within braces. -/
def inlineEntry (e : String × Value) : List Char := quoteKey e.1 ++ ' ' :: '=' :: ' ' :: inline e.2

theorem inlineEntries_eq (es : List (String × Value)) :
    Toml.inlineEntries es = es.map inlineEntry := by
  induction es with
  | nil => rfl
  | cons e es ih => rw [Toml.inlineEntries, ih, List.map_cons, inlineEntry]

/-! ## How values and keys begin -/

/-- A character with which neither a scalar nor a key begins. -/
def IsMark (c : Char) : Prop :=
  c ∈ [' ', '\t', '\n', '\r', '#', ',', '.', '=', '[', ']', '\x7b', '\x7d', '\ufeff']

instance (c : Char) : Decidable (IsMark c) := inferInstanceAs (Decidable (_ ∈ _))

theorem scalar_eq_none {c : Char} (hc : IsMark c) (cs : List Char) : scalar (c :: cs) = none := by
  simp only [IsMark, List.mem_cons, List.not_mem_nil, or_false] at hc
  rcases hc with rfl | rfl | rfl | rfl | rfl | rfl | rfl | rfl | rfl | rfl | rfl | rfl | rfl <;> rfl

theorem keyPart_eq_none {c : Char} (hc : IsMark c) (cs : List Char) :
    keyPart (c :: cs) = none := by
  simp only [IsMark, List.mem_cons, List.not_mem_nil, or_false] at hc
  rcases hc with rfl | rfl | rfl | rfl | rfl | rfl | rfl | rfl | rfl | rfl | rfl | rfl | rfl <;> rfl

theorem Yields.exists_cons {text : List Char} {v : Value} (h : Yields scalar text v) :
    ∃ c cs, text = c :: cs ∧ ¬ IsMark c := by
  have hread := h ['\n'] ⟨[], .inl rfl⟩
  cases text with
  | nil =>
    rw [List.nil_append, scalar_eq_none (by decide)] at hread
    cases hread
  | cons c cs =>
    refine ⟨c, cs, rfl, fun hc => ?_⟩
    rw [List.cons_append, scalar_eq_none hc] at hread
    cases hread

theorem exists_quoteKey_eq_cons (key : String) :
    ∃ c cs, quoteKey key = c :: cs ∧ ¬ IsMark c := by
  have hread : keyPart (quoteKey key ++ ['.']) = some (key, ['.']) :=
    keyPart_quoteKey key (by simp [Toml.isBareKeyChar])
  cases hkey : quoteKey key with
  | nil =>
    rw [hkey, List.nil_append, keyPart_eq_none (by decide)] at hread
    cases hread
  | cons c cs =>
    refine ⟨c, cs, rfl, fun hc => ?_⟩
    rw [hkey, List.cons_append, keyPart_eq_none hc] at hread
    cases hread

theorem ne_of_not_isMark {c : Char} (hc : ¬ IsMark c) {d : Char} (hd : IsMark d) : c ≠ d :=
  fun h => hc (h ▸ hd)

theorem skipSpaces_of_not_isMark {c : Char} (hc : ¬ IsMark c) (cs : List Char) :
    skipSpaces (c :: cs) = c :: cs := by
  have hspace : c ≠ ' ' := ne_of_not_isMark hc (by decide)
  have htab : c ≠ '\t' := ne_of_not_isMark hc (by decide)
  simp [skipSpaces, isSpace, hspace, htab]

/-- A value begins with something that the readers around it do not skip. -/
def StartsValue (text : List Char) : Prop :=
  ∃ c cs, text = c :: cs ∧ c ∉ [' ', '\t', '\n', '\r', '#', ']']

theorem startsValue_of_not_isMark {c : Char} (hc : ¬ IsMark c) (cs : List Char) :
    StartsValue (c :: cs) := by
  refine ⟨c, cs, rfl, fun hmem => ?_⟩
  simp only [List.mem_cons, List.not_mem_nil, or_false] at hmem
  rcases hmem with rfl | rfl | rfl | rfl | rfl | rfl <;> exact hc (by decide)

theorem StartsValue.skipSpaces {text : List Char} (h : StartsValue text) (rest : List Char) :
    skipSpaces (text ++ rest) = text ++ rest := by
  obtain ⟨c, cs, rfl, hc⟩ := h
  simp only [List.mem_cons, List.not_mem_nil, or_false, not_or] at hc
  simp [Lexical.skipSpaces, isSpace, hc.1, hc.2.1]

theorem StartsValue.skipFiller {text : List Char} (h : StartsValue text) (rest : List Char) :
    skipFiller (text ++ rest) = some (text ++ rest) := by
  obtain ⟨c, cs, rfl, hc⟩ := h
  simp only [List.mem_cons, List.not_mem_nil, or_false, not_or] at hc
  obtain ⟨hspace, htab, hfeed, hreturn, hcomment, -⟩ := hc
  rw [List.cons_append, Lexical.skipFiller, skipFillerFrom]
  · simp [isSpace, hspace, htab, hcomment]
  · exact hfeed
  · exact fun _ heq => absurd heq hreturn

/-- The reader reads what is written of the value, and what is around it does not hide it. -/
structure Inlines (reader : Reader Value) (v : Value) : Prop where
  yields : Yields reader (inline v) v
  starts : StartsValue (inline v)

theorem inlines_of_scalar (v : Value) (h : Yields scalar (inline v) v) (depth : Nat) :
    Inlines (value depth) v := by
  obtain ⟨c, cs, htext, hc⟩ := h.exists_cons
  refine ⟨fun rest hrest => ?_, htext ▸ startsValue_of_not_isMark hc cs⟩
  have hbracket : c ≠ '[' := ne_of_not_isMark hc (by decide)
  have hbrace : c ≠ '\x7b' := ne_of_not_isMark hc (by decide)
  have hread := h rest hrest
  rw [htext, List.cons_append] at hread ⊢
  rw [← hread]
  unfold value
  split
  next heq => exact absurd (List.cons.inj heq).1 hbracket
  next heq => exact absurd (List.cons.inj heq).1 hbrace
  next heq => exact absurd (List.cons.inj heq).1 hbracket
  next heq => exact absurd (List.cons.inj heq).1 hbrace
  next => rfl

/-! ## Arrays -/

section Elements

variable {reader : Reader Value}

theorem elements_space (fuel : Nat) (cs : List Char) :
    elements reader fuel (' ' :: cs) = elements reader fuel cs := by
  cases fuel <;> rfl

/-- Before the last element there is a comma, and behind it a bracket. -/
theorem elements_cons {v : Value} (hv : Inlines reader v) (fuel : Nat) {c : Char}
    (hc : c = ',' ∨ c = ']') (rest : List Char) :
    elements reader (fuel + 1) (inline v ++ c :: rest) =
      if c = ',' then (elements reader fuel rest).map fun r => (v :: r.1, r.2)
      else some ([v], rest) := by
  have hfiller := hv.starts.skipFiller (c :: rest)
  have hfollows : Follows (c :: rest) := by
    rcases hc with rfl | rfl
    · exact ⟨rest, .inr (.inl rfl)⟩
    · exact ⟨rest, .inr (.inr (.inl rfl))⟩
  have hread := hv.yields (c :: rest) hfollows
  obtain ⟨d, cs, htext, hd⟩ := hv.starts
  rw [htext, List.cons_append] at hfiller hread ⊢
  rw [elements, hfiller]
  simp only [List.mem_cons, List.not_mem_nil, or_false, not_or] at hd
  simp only [Option.bind_eq_bind, Option.bind_some]
  split
  next heq => exact absurd (List.cons.inj heq).1 hd.2.2.2.2.2
  next =>
    rw [hread]
    rcases hc with rfl | rfl
    · have hcomma : skipFiller (',' :: rest) = some (',' :: rest) := rfl
      simp only [Option.bind_some, hcomma, if_true]
      cases elements reader fuel rest <;> rfl
    · rfl

theorem elements_inline {vs : List Value} (hvs : ∀ v ∈ vs, Inlines reader v) (rest : List Char)
    {fuel : Nat} (hfuel : (commaSeparated (vs.map inline) ++ ']' :: rest).length < fuel) :
    elements reader fuel (commaSeparated (vs.map inline) ++ ']' :: rest) = some (vs, rest) := by
  induction vs generalizing fuel with
  | nil =>
    obtain ⟨fuel, rfl⟩ := Nat.exists_eq_succ_of_ne_zero (Nat.ne_zero_of_lt hfuel)
    rfl
  | cons v vs ih =>
    obtain ⟨fuel, rfl⟩ := Nat.exists_eq_succ_of_ne_zero (Nat.ne_zero_of_lt hfuel)
    rw [List.forall_mem_cons] at hvs
    cases vs with
    | nil =>
      rw [List.map_singleton, commaSeparated, elements_cons hvs.1 fuel (.inr rfl)]
      rfl
    | cons w vs =>
      have htext : commaSeparated ((v :: w :: vs).map inline) ++ ']' :: rest =
          inline v ++ ',' :: ' ' :: (commaSeparated ((w :: vs).map inline) ++ ']' :: rest) := by
        simp [commaSeparated]
      rw [htext] at hfuel ⊢
      rw [elements_cons hvs.1 fuel (.inl rfl), if_pos rfl, elements_space, ih hvs.2]
      · rfl
      · simp only [List.length_append, List.length_cons] at hfuel ⊢
        omega

end Elements

/-! ## Keys -/

/-- The text goes on with something that cannot belong to a key. -/
def EndsKey (cs : List Char) : Prop :=
  ∃ c rest, cs = c :: rest ∧ c ∈ [' ', ']', '.']

theorem keyPart_key (key : String) {rest : List Char} (hrest : EndsKey rest) :
    keyPart (quoteKey key ++ rest) = some (key, rest) := by
  obtain ⟨c, rest, rfl, hc⟩ := hrest
  refine keyPart_quoteKey key fun d hd => ?_
  obtain rfl := Option.some.inj hd
  simp only [List.mem_cons, List.not_mem_nil, or_false] at hc
  rcases hc with rfl | rfl | rfl <;> rfl

theorem skipSpaces_quoteKey (key : String) (rest : List Char) :
    skipSpaces (quoteKey key ++ rest) = quoteKey key ++ rest := by
  obtain ⟨c, cs, htext, hc⟩ := exists_quoteKey_eq_cons key
  rw [htext]
  exact skipSpaces_of_not_isMark hc _

/-- The key of an entry, where blanks may stand in front. -/
theorem key_entry {cs : List Char} {name : String} {rest : List Char}
    (hcs : skipSpaces cs = quoteKey name ++ ' ' :: '=' :: rest) :
    key cs = some (([], name), '=' :: rest) := by
  have hpart : keyPart (quoteKey name ++ ' ' :: '=' :: rest) = some (name, ' ' :: '=' :: rest) :=
    keyPart_key name ⟨' ', _, rfl, by decide⟩
  have hblank : skipSpaces (' ' :: '=' :: rest) = '=' :: rest := rfl
  unfold key
  rw [keyParts, hcs, hpart]
  simp [hblank, depthLimit]

/-- The keys of a path, up to the bracket that closes the header. -/
theorem keyParts_path {path : List String} (hne : path ≠ []) (rest : List Char) {fuel : Nat}
    (hfuel : (pathChars path ++ ']' :: rest).length < fuel) :
    keyParts fuel (pathChars path ++ ']' :: rest) = some (path, ']' :: rest) := by
  induction path generalizing fuel with
  | nil => exact absurd rfl hne
  | cons name path ih =>
    obtain ⟨fuel, rfl⟩ := Nat.exists_eq_succ_of_ne_zero (Nat.ne_zero_of_lt hfuel)
    cases path with
    | nil =>
      have htext : pathChars [name] = quoteKey name := by simp [pathChars]
      rw [htext, keyParts, skipSpaces_quoteKey, keyPart_key name ⟨']', rest, rfl, by decide⟩]
      rfl
    | cons next path =>
      have htext : pathChars (name :: next :: path) ++ ']' :: rest =
          quoteKey name ++ '.' :: (pathChars (next :: path) ++ ']' :: rest) := by
        simp [pathChars, List.intercalate]
      rw [htext] at hfuel ⊢
      rw [keyParts, skipSpaces_quoteKey, keyPart_key name ⟨'.', _, rfl, by decide⟩]
      have hdot : ∀ cs, skipSpaces ('.' :: cs) = '.' :: cs := fun _ => rfl
      simp only [Option.bind_eq_bind, Option.bind_some, hdot]
      rw [ih (List.cons_ne_nil _ _)]
      · rfl
      · simp only [List.length_append, List.length_cons] at hfuel ⊢
        omega

/-- **A path is read as itself**, if it is not too long. -/
theorem key_path {path : List String} (name : String) (hlength : path.length + 1 < depthLimit)
    (rest : List Char) :
    key (pathChars (path ++ [name]) ++ ']' :: rest) = some ((path, name), ']' :: rest) := by
  have hparts := keyParts_path (List.concat_ne_nil name path) rest (Nat.lt_succ_self _)
  unfold key
  rw [hparts]
  simp [hlength]

/-! ## Tables within braces -/

theorem assignment_entry {reader : Reader Value} {e : String × Value} (he : Inlines reader e.2)
    {cs rest : List Char} (hcs : skipSpaces cs = inlineEntry e ++ rest) (hrest : Follows rest) :
    assignment reader cs = some (.ofEntry e, skipSpaces rest) := by
  have hkey : key cs = some (([], e.1), '=' :: ' ' :: (inline e.2 ++ rest)) := by
    refine key_entry ?_
    rw [hcs, inlineEntry]
    simp
  have hblank : skipSpaces (' ' :: (inline e.2 ++ rest)) = inline e.2 ++ rest :=
    he.starts.skipSpaces rest
  unfold assignment
  simp only [hkey, Option.bind_eq_bind, Option.bind_some, word, if_true, hblank,
    he.yields rest hrest]
  rfl

section Entries

variable {reader : Reader Value}

theorem exists_inlineEntries_eq_cons (e : String × Value) (es : List (String × Value)) :
    ∃ c cs, commaSeparated ((e :: es).map inlineEntry) = c :: cs ∧ ¬ IsMark c := by
  obtain ⟨tail, htext⟩ : ∃ tail, commaSeparated ((e :: es).map inlineEntry) =
      quoteKey e.1 ++ tail := by
    cases es with
    | nil => exact ⟨_, rfl⟩
    | cons e' es => exact ⟨_, List.append_assoc _ _ _⟩
  obtain ⟨c, cs, hkey, hc⟩ := exists_quoteKey_eq_cons e.1
  exact ⟨c, cs ++ tail, by rw [htext, hkey, List.cons_append], hc⟩

theorem skipSpaces_inlineEntries (e : String × Value) (es : List (String × Value))
    (rest : List Char) :
    skipSpaces (commaSeparated ((e :: es).map inlineEntry) ++ rest) =
      commaSeparated ((e :: es).map inlineEntry) ++ rest := by
  obtain ⟨c, cs, htext, hc⟩ := exists_inlineEntries_eq_cons e es
  rw [htext]
  exact skipSpaces_of_not_isMark hc _

theorem inlineEntries_append {es : List (String × Value)} (hne : es ≠ [])
    (hes : ∀ e ∈ es, Inlines reader e.2) (rest : List Char) {cs : List Char}
    (hcs : skipSpaces cs = commaSeparated (es.map inlineEntry) ++ ' ' :: '\x7d' :: rest)
    {fuel : Nat} (hfuel : cs.length < fuel) :
    Parser.inlineEntries reader fuel cs = some (es.map .ofEntry, rest) := by
  induction es generalizing cs fuel with
  | nil => exact absurd rfl hne
  | cons e es ih =>
    obtain ⟨fuel, rfl⟩ := Nat.exists_eq_succ_of_ne_zero (Nat.ne_zero_of_lt hfuel)
    rw [List.forall_mem_cons] at hes
    cases es with
    | nil =>
      have hread := assignment_entry hes.1 hcs ⟨rest, .inr (.inr (.inr rfl))⟩
      rw [Parser.inlineEntries, hread]
      rfl
    | cons e' es =>
      have hcs' : skipSpaces cs = inlineEntry e ++
          ',' :: ' ' :: (commaSeparated ((e' :: es).map inlineEntry) ++ ' ' :: '\x7d' :: rest) := by
        rw [hcs]
        simp [commaSeparated]
      have hread := assignment_entry hes.1 hcs' ⟨_, .inr (.inl rfl)⟩
      have hcomma : ∀ cs, skipSpaces (',' :: cs) = ',' :: cs := fun _ => rfl
      have hshort : (inlineEntry e ++ ',' :: ' ' ::
          (commaSeparated ((e' :: es).map inlineEntry) ++ ' ' :: '\x7d' :: rest)).length ≤
            cs.length := hcs' ▸ (List.dropWhile_sublist _).length_le
      have htail : Parser.inlineEntries reader fuel
          (' ' :: (commaSeparated ((e' :: es).map inlineEntry) ++ ' ' :: '\x7d' :: rest)) =
            some ((e' :: es).map .ofEntry, rest) := by
        have hskip : skipSpaces
            (' ' :: (commaSeparated ((e' :: es).map inlineEntry) ++ ' ' :: '\x7d' :: rest)) =
              commaSeparated ((e' :: es).map inlineEntry) ++ ' ' :: '\x7d' :: rest :=
          skipSpaces_inlineEntries e' es _
        refine ih (List.cons_ne_nil _ _) hes.2 hskip ?_
        simp only [List.length_append, List.length_cons] at hshort ⊢
        omega
      rw [Parser.inlineEntries, hread, hcomma]
      simp only [Option.bind_eq_bind, Option.bind_some, htail]
      rfl

/-- **A table within braces is read as itself**, if its names differ. -/
theorem inlineTable_inline {es : List (String × Value)} (hes : ∀ e ∈ es, Inlines reader e.2)
    (hnames : (es.map Prod.fst).Nodup) {cs : List Char}
    (hcs : Toml.inlineTable (es.map inlineEntry) = '\x7b' :: cs) (rest : List Char) :
    Parser.inlineTable reader (cs ++ rest) = some (.table es, rest) := by
  cases es with
  | nil =>
    obtain rfl : ['\x7d'] = cs := (List.cons.inj hcs).2
    rfl
  | cons e es =>
    have htext : cs ++ rest =
        ' ' :: (commaSeparated ((e :: es).map inlineEntry) ++ ' ' :: '\x7d' :: rest) := by
      rw [← (List.cons.inj hcs).2]
      simp
    have hskip := skipSpaces_inlineEntries e es (' ' :: '\x7d' :: rest)
    have hread := inlineEntries_append (List.cons_ne_nil e es) hes rest hskip (Nat.lt_succ_self _)
    obtain ⟨c, tail, hcons, hc⟩ := exists_inlineEntries_eq_cons e es
    have hclosing : c ≠ '\x7d' := ne_of_not_isMark hc (by decide)
    have hblank : ∀ cs, skipSpaces (' ' :: cs) = skipSpaces cs := fun _ => rfl
    rw [htext]
    unfold Parser.inlineTable
    rw [hblank, hskip]
    split
    next heq =>
      rw [hcons, List.cons_append] at heq
      exact absurd (List.cons.inj heq).1 hclosing
    next =>
      rw [hread]
      simp only [Option.bind_eq_bind, Option.bind_some, Document.inline?_ofEntry hnames]
      rfl

end Entries

/-- **A value is read as itself** by a reader that descends deep enough. -/
theorem inlines_value {v : Value} (hv : v.Settled) {depth : Nat} (hdepth : v.depth ≤ depth) :
    Inlines (value depth) v := by
  induction hv generalizing depth with
  | string s => exact inlines_of_scalar (.string s) (scalar_quote s) depth
  | integer hn => exact inlines_of_scalar (.integer _) (scalar_ofInt hn) depth
  | float hx => exact inlines_of_scalar (.float _) (scalar_float hx) depth
  | boolean b =>
    cases b with
    | true => exact inlines_of_scalar (.boolean true) scalar_true depth
    | false => exact inlines_of_scalar (.boolean false) scalar_false depth
  | datetime hd => exact inlines_of_scalar (.datetime _) (scalar_datetime hd) depth
  | @array vs _ ih =>
    rw [Value.depth] at hdepth
    obtain ⟨depth, rfl⟩ := Nat.exists_eq_succ_of_ne_zero (Nat.ne_zero_of_lt hdepth)
    have helements := depthElements_le_iff.mp (Nat.le_of_succ_le_succ hdepth)
    refine ⟨fun rest hrest => ?_, '[', _, rfl, by decide⟩
    have hread := elements_inline (fun v hv => ih v hv (helements v hv)) rest (Nat.lt_succ_self _)
    rw [inline, inlineElements_eq, List.cons_append, List.append_assoc, List.singleton_append,
      value, hread]
    rfl
  | @table es hsorted _ ih =>
    rw [Value.depth] at hdepth
    obtain ⟨depth, rfl⟩ := Nat.exists_eq_succ_of_ne_zero (Nat.ne_zero_of_lt hdepth)
    have hentries := depthEntries_le_iff.mp (Nat.le_of_succ_le_succ hdepth)
    obtain ⟨cs, hcs⟩ : ∃ cs, Toml.inlineTable (es.map inlineEntry) = '\x7b' :: cs := by
      cases es <;> exact ⟨_, rfl⟩
    have hread := inlineTable_inline (fun e he => ih e he (hentries e he)) hsorted.nodup hcs
    refine ⟨fun rest hrest => ?_, '\x7b', cs, ?_, by decide⟩
    · rw [inline, inlineEntries_eq, hcs, List.cons_append, value, hread]
    · rw [inline, inlineEntries_eq, hcs]

end Abacus.Toml
