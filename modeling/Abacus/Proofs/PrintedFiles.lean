import Abacus.Proofs.ValueText

/-!
# Reading printed files

A printed file is a sequence of lines: entries, headers, and blank lines in front of headers.
Each of them is read as what it was printed for, so the reader finds the sections of the table
(`entrySections`), and these make up the table.

## Paths

The printer writes every header with the whole path from the outermost table, while sections
inside a table are given without the path to it.  So what is proved of a value is about every
place where it may stand, and the path to that place is put in front of its sections
(`Section.within`).  The reader counts the names of a path, so that a value stands not too deep
at its place is part of the hypotheses.
-/

namespace Abacus.Toml

open Abacus.Text.Reader (word)
open Lexical
open Abacus.Toml.Parser (headerLine sections value)

/-! ## Lines -/

/-- The text is read as these entries, followed by these sections. -/
def SplitsInto (cs : List Char) (as : List Assignment) (ss : List Section) : Prop :=
  ∀ fuel, cs.length < fuel → sections fuel cs = some (as, ss)

section Lines

variable {cs : List Char} {as : List Assignment} {ss : List Section}

theorem splitsInto_nil : SplitsInto [] [] [] := by
  intro fuel hfuel
  obtain ⟨fuel, rfl⟩ := Nat.exists_eq_succ_of_ne_zero (Nat.ne_zero_of_lt hfuel)
  rfl

theorem SplitsInto.blankLine (h : SplitsInto cs as ss) : SplitsInto ('\n' :: cs) as ss := by
  intro fuel hfuel
  obtain ⟨fuel, rfl⟩ := Nat.exists_eq_succ_of_ne_zero (Nat.ne_zero_of_lt hfuel)
  have hrest := h fuel (Nat.lt_of_succ_lt_succ hfuel)
  have hskip : skipSpaces ('\n' :: cs) = '\n' :: cs := rfl
  rw [sections, hskip]
  exact hrest

/-- A value that stands on the line of its entry. -/
def FitsLine (v : Value) : Prop := Inlines (value (depthLimit - 1)) v

theorem SplitsInto.entryLine (h : SplitsInto cs as ss) {e : String × Value}
    (he : FitsLine e.2) : SplitsInto (entryLine e ++ cs) (.ofEntry e :: as) ss := by
  intro fuel hfuel
  obtain ⟨fuel, rfl⟩ := Nat.exists_eq_succ_of_ne_zero (Nat.ne_zero_of_lt hfuel)
  obtain ⟨c, tail, hkey, hc⟩ := exists_quoteKey_eq_cons e.1
  have htext : Toml.entryLine e ++ cs = inlineEntry e ++ '\n' :: cs := by
    simp [Toml.entryLine, inlineEntry]
  have hcons : inlineEntry e = c :: (tail ++ ' ' :: '=' :: ' ' :: inline e.2) := by
    rw [inlineEntry, hkey, List.cons_append]
  have hskip : skipSpaces (inlineEntry e ++ '\n' :: cs) = inlineEntry e ++ '\n' :: cs := by
    rw [hcons]
    exact skipSpaces_of_not_isMark hc _
  have hread := assignment_entry he hskip ⟨cs, .inl rfl⟩
  have hline : Parser.entryLine (inlineEntry e ++ '\n' :: cs) = some (.ofEntry e, cs) := by
    rw [Parser.entryLine, hread]
    rfl
  have hrest : sections fuel cs = some (as, ss) := by
    refine h fuel ?_
    rw [htext, List.length_append, List.length_cons] at hfuel
    omega
  have hbracket : c ≠ '[' := ne_of_not_isMark hc (by decide)
  have hcomment : c ≠ '#' := ne_of_not_isMark hc (by decide)
  have hfeed : c ≠ '\n' := ne_of_not_isMark hc (by decide)
  have hreturn : c ≠ '\r' := ne_of_not_isMark hc (by decide)
  rw [htext, sections, hskip]
  rw [hcons, List.cons_append] at hline ⊢
  split
  next heq => cases heq
  next heq => exact absurd (List.cons.inj heq).1 hbracket
  next heq =>
    obtain ⟨rfl, rfl⟩ := List.cons.inj heq
    rw [if_neg (by simp [hcomment, hfeed, hreturn]), hline]
    simp only [Option.bind_eq_bind, Option.bind_some, hrest]
    rfl

/-- The text of a path does not begin like another bracket. -/
theorem exists_pathChars_eq_cons (path : List String) (name : String) :
    ∃ c tail, pathChars (path ++ [name]) = c :: tail ∧ ¬ IsMark c := by
  obtain ⟨first, rest, hpath⟩ := List.exists_cons_of_ne_nil (List.concat_ne_nil name path)
  obtain ⟨c, tail, hkey, hc⟩ := exists_quoteKey_eq_cons first
  rw [hpath]
  cases rest with
  | nil => exact ⟨c, tail, by simp [pathChars, hkey], hc⟩
  | cons second rest =>
    exact ⟨c, _, by simp [pathChars, List.intercalate, hkey]; rfl, hc⟩

/-- The text of a header. -/
def headerChars (header : Header) (path : List String) : List Char :=
  match header with
  | .table => tableHeader path
  | .element => elementHeader path

theorem headerLine_append (header : Header) {path : List String} (name : String)
    (hpath : path.length + 1 < depthLimit) (rest : List Char) :
    headerLine (headerChars header (path ++ [name]) ++ rest) =
      some ((header, path, name), rest) := by
  cases header with
  | table =>
    have htext : headerChars .table (path ++ [name]) ++ rest =
        '[' :: (pathChars (path ++ [name]) ++ ']' :: '\n' :: rest) := by
      simp [headerChars, tableHeader]
    have hkey := key_path name hpath ('\n' :: rest)
    obtain ⟨c, tail, hcons, hc⟩ := exists_pathChars_eq_cons path name
    have hbracket : c ≠ '[' := ne_of_not_isMark hc (by decide)
    rw [htext]
    rw [hcons, List.cons_append] at hkey ⊢
    unfold headerLine
    split
    next heq => exact absurd (List.cons.inj (List.cons.inj heq).2).1 hbracket
    next heq =>
      obtain rfl := (List.cons.inj heq).2
      rw [hkey]
      rfl
    next h => exact absurd rfl (h _)
  | element =>
    have htext : headerChars .element (path ++ [name]) ++ rest =
        '[' :: '[' :: (pathChars (path ++ [name]) ++ ']' :: ']' :: '\n' :: rest) := by
      simp [headerChars, elementHeader]
    have hkey := key_path name hpath (']' :: '\n' :: rest)
    rw [htext, headerLine, hkey]
    rfl

theorem SplitsInto.headerLine (h : SplitsInto cs as ss) (header : Header) {path : List String}
    (name : String) (hpath : path.length + 1 < depthLimit) :
    SplitsInto (headerChars header (path ++ [name]) ++ cs) []
      ({ header, path, key := name, assignments := as } :: ss) := by
  intro fuel hfuel
  obtain ⟨fuel, rfl⟩ := Nat.exists_eq_succ_of_ne_zero (Nat.ne_zero_of_lt hfuel)
  have hline := headerLine_append header name hpath cs
  obtain ⟨tail, hcons⟩ : ∃ tail, headerChars header (path ++ [name]) = '[' :: tail := by
    cases header <;> exact ⟨_, rfl⟩
  rw [hcons] at hfuel hline ⊢
  have hrest : sections fuel cs = some (as, ss) := by
    refine h fuel ?_
    simp only [List.length_append, List.length_cons] at hfuel
    omega
  have hskip : skipSpaces ('[' :: tail ++ cs) = '[' :: (tail ++ cs) := rfl
  rw [sections, hskip]
  rw [List.cons_append] at hline
  simp only [hline, Option.bind_eq_bind, Option.bind_some, hrest]
  rfl

/-- The entries of a table on lines of their own. -/
theorem SplitsInto.entryLines (h : SplitsInto cs as ss) {es : Table}
    (hes : ∀ e ∈ plainEntries es, FitsLine e.2) :
    SplitsInto (Toml.entryLines es ++ cs) ((plainEntries es).map .ofEntry ++ as) ss := by
  have hlines : Toml.entryLines es = (plainEntries es).flatMap Toml.entryLine := rfl
  rw [hlines]
  generalize plainEntries es = plain at hes ⊢
  induction plain with
  | nil => exact h
  | cons e plain ih =>
    rw [List.forall_mem_cons] at hes
    rw [List.flatMap_cons, List.append_assoc]
    exact (ih hes.2).entryLine hes.1

end Lines

/-! ## Blocks -/

/-- The blocks are read as these sections, wherever they begin in a file. -/
def Tells (bs : List Block) (ss : List Section) : Prop :=
  ∀ first, SplitsInto (renderBlocks first bs) [] ss

/-- The section in the table that a path leads to. -/
def Section.within (path : List String) (s : Section) : Section :=
  { s with path := path ++ s.path }

theorem map_within_nil (ss : List Section) : ss.map (Section.within []) = ss :=
  List.map_id ss

theorem map_within_concat (path : List String) (key : String) (ss : List Section) :
    ss.map (Section.within (path ++ [key])) =
      (ss.map (Section.under key)).map (Section.within path) := by
  rw [List.map_map]
  refine List.map_congr_left fun s _ => ?_
  simp [Section.within, Section.under]

variable {bs : List Block} {ss : List Section}

theorem tells_nil : Tells [] [] := fun _ => splitsInto_nil

/-- A block with a header opens a section. -/
theorem Tells.block (h : Tells bs ss) (header : Header) {path : List String} (key : String)
    (hpath : path.length + 1 < depthLimit) {es : Table}
    (hes : ∀ e ∈ plainEntries es, FitsLine e.2) :
    Tells ({ header := some (headerChars header (path ++ [key])), body := entryLines es } :: bs)
      ((Document.opening header key es).within path :: ss) := by
  intro first
  have hread := ((h false).entryLines hes).headerLine header key hpath
  rw [List.append_nil] at hread
  have hsection : (Document.opening header key es).within path =
      { header, path, key, assignments := (plainEntries es).map .ofEntry } := by
    simp [Section.within, Document.opening]
  rw [hsection, renderBlocks]
  cases first with
  | true =>
    simp only [if_true, List.nil_append, List.append_assoc]
    exact hread
  | false =>
    simp only [Bool.false_eq_true, if_false, List.append_assoc, List.singleton_append]
    exact hread.blankLine

/-- A block without anything to show leaves no trace. -/
theorem Tells.hidden (h : Tells bs ss) : Tells ({ header := none, body := [] } :: bs) ss := by
  intro first
  have hread := h first
  simpa [renderBlocks] using hread

/-! ## Values -/

/-- What is written of the entries with headers is read as their sections. -/
def PrintsEntries (es : Table) : Prop :=
  ∀ path : List String, (∀ e ∈ es, path.length + e.2.depth < depthLimit) →
    (∀ e ∈ plainEntries es, FitsLine e.2) ∧
    ∀ {bs : List Block} {ss : List Section}, Tells bs ss →
      Tells (entryBlocks path es ++ bs) ((entrySections es).map (.within path) ++ ss)

/-- What is written of a value with a header is read as its sections. -/
def Prints (v : Value) : Prop :=
  hasHeader v = true → ∀ (path : List String) (key : String),
    path.length + v.depth < depthLimit →
    ∀ {bs : List Block} {ss : List Section}, Tells bs ss →
      Tells (blocks (path ++ [key]) v ++ bs) ((valueSections key v).map (.within path) ++ ss)

theorem printsEntries_of_prints {es : Table} (hsettled : ∀ e ∈ es, e.2.Settled)
    (hes : ∀ e ∈ es, Prints e.2) : PrintsEntries es := by
  intro path hdepth
  constructor
  · intro e he
    have hmem := (List.mem_filter.mp he).1
    have := hdepth e hmem
    exact inlines_value (hsettled e hmem) (by omega)
  · intro bs ss h
    induction es with
    | nil => exact h
    | cons e es ih =>
      obtain ⟨key, v⟩ := e
      rw [List.forall_mem_cons] at hsettled hes hdepth
      have htail := ih hsettled.2 hes.2 hdepth.2
      by_cases hheader : hasHeader v = true
      · have hread := hes.1 hheader path key hdepth.1 htail
        rw [entryBlocks, entrySections, if_pos hheader, if_pos hheader, List.map_append,
          List.append_assoc, List.append_assoc]
        exact hread
      · rw [entryBlocks, entrySections, if_neg hheader, if_neg hheader]
        exact htail

theorem depth_lt_of_mem {es : Table} {path : List String} {key : String}
    (hdepth : path.length + (depthEntries es + 1) < depthLimit) :
    ∀ e ∈ es, (path ++ [key]).length + e.2.depth < depthLimit := by
  intro e he
  have := depthEntries_le_iff.mp le_rfl e he
  rw [List.length_append, List.length_singleton]
  omega

theorem prints_table {es : Table} (hes : PrintsEntries es) : Prints (.table es) := by
  intro _ path key hdepth bs ss h
  rw [Value.depth] at hdepth
  obtain ⟨hlines, hblocks⟩ := hes (path ++ [key]) (depth_lt_of_mem hdepth)
  have hinner := hblocks h
  rw [map_within_concat] at hinner
  cases hshows : showsHeader es with
  | true =>
    have hread := hinner.block .table key (show path.length + 1 < depthLimit by omega) hlines
    simp only [blocks, valueSections, hshows, if_true]
    exact hread
  | false =>
    have hbody : entryLines es = [] :=
      congrArg (List.flatMap Toml.entryLine) (Document.of_showsHeader_eq_false hshows).1
    have hread := hinner.hidden
    simp only [blocks, valueSections, hshows, Bool.false_eq_true, if_false, hbody]
    exact hread

theorem tells_elements {vs : List Value} {path : List String} {key : String}
    (hvs : ∀ v ∈ vs, ∃ es, v = .table es ∧ PrintsEntries es ∧
      ∀ e ∈ es, (path ++ [key]).length + e.2.depth < depthLimit)
    (hpath : path.length + 1 < depthLimit) (h : Tells bs ss) :
    Tells (elementBlocks (path ++ [key]) vs ++ bs)
      ((elementSections key vs).map (.within path) ++ ss) := by
  induction vs with
  | nil => exact h
  | cons v vs ih =>
    rw [List.forall_mem_cons] at hvs
    obtain ⟨⟨es, rfl, hes, hdepth⟩, hvs⟩ := hvs
    obtain ⟨hlines, hblocks⟩ := hes _ hdepth
    have hread := (hblocks (ih hvs)).block .element key hpath hlines
    rw [map_within_concat] at hread
    simp only [elementBlocks, elementSections, List.cons_append, List.append_assoc, List.map_cons,
      List.map_append]
    exact hread

theorem prints_array {vs : List Value} (hvs : ∀ v ∈ vs, ∀ es, v = .table es → PrintsEntries es) :
    Prints (.array vs) := by
  intro hheader path key hdepth bs ss h
  rw [Value.depth] at hdepth
  refine tells_elements (fun v hv => ?_) (by omega) h
  obtain ⟨es, rfl⟩ := (hasHeader_array hheader).2 v hv
  have hmax := depthElements_le_iff.mp le_rfl _ hv
  rw [Value.depth] at hmax
  exact ⟨es, rfl, hvs _ hv es rfl, depth_lt_of_mem (by omega)⟩

theorem prints_of_settled {v : Value} (hv : v.Settled) :
    Prints v ∧ ∀ es, v = .table es → PrintsEntries es := by
  induction hv with
  | string | integer | float | boolean | datetime =>
    exact ⟨fun h => absurd h Bool.false_ne_true, fun _ h => by cases h⟩
  | array _ ih => exact ⟨prints_array fun v hv => (ih v hv).2, fun _ h => by cases h⟩
  | @table es _ hsettled ih =>
    have hentries := printsEntries_of_prints hsettled fun e he => (ih e he).1
    refine ⟨prints_table hentries, fun es' h => ?_⟩
    obtain rfl := Value.table.inj h
    exact hentries

/-! ## Files -/

/-- A byte order mark is not the first character of anything that is read without it. -/
theorem SplitsInto.dropMark {cs : List Char} {as : List Assignment} {ss : List Section}
    (h : SplitsInto cs as ss) : Parser.dropMark cs = cs := by
  unfold Parser.dropMark
  split
  next cs =>
    have hread := h _ (Nat.lt_succ_self _)
    have hkey : ∀ cs, key ('\ufeff' :: cs) = none := by
      intro cs
      have hskip : skipSpaces ('\ufeff' :: cs) = '\ufeff' :: cs := rfl
      rw [key, keyParts, hskip, keyPart_eq_none (by decide)]
      rfl
    simp [sections, skipSpaces, isSpace, Parser.entryLine, Parser.assignment, hkey] at hread
  next => rfl

/-- **A printed table is read as the table**, in the order in which it is printed. -/
theorem parse?_print {table : Table} (hsorted : Entries.Sorted table)
    (hsettled : ∀ e ∈ table, e.2.Settled) (hdepth : depthEntries table < depthLimit) :
    Parser.parse? (print table) = some (plainEntries table ++ orderedEntries table) := by
  have hentries := printsEntries_of_prints hsettled fun e he =>
    (prints_of_settled (hsettled e he)).1
  obtain ⟨hlines, hblocks⟩ := hentries [] fun e he => by
    have := depthEntries_le_iff.mp le_rfl e he
    rw [List.length_nil]
    omega
  have hread : SplitsInto (print table).toList ((plainEntries table).map .ofEntry)
      (entrySections table) := by
    have htells := hblocks tells_nil (entryLines table).isEmpty
    rw [List.append_nil, List.append_nil, map_within_nil] at htells
    have hlines := htells.entryLines hlines
    rw [List.append_nil] at hlines
    rw [print, String.toList_ofList, renderBlocks]
    exact hlines
  unfold Parser.parse?
  simp only [hread.dropMark, hread _ (Nat.lt_succ_self _), Option.bind_eq_bind, Option.bind_some,
    Document.build?_entrySections hsorted hsettled]

end Abacus.Toml
