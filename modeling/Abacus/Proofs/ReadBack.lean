import Abacus.Proofs.CanonicalSettings
import Abacus.Proofs.PrintedFiles

/-!
# What is printed is read back

Printing and reading a table undo each other, up to the order of the entries, which the
canonical form restores.  This holds of every table that a file can hold, with two exceptions
(`Table.Writable`).

* A table that is nested too deep for the reader: a header and the key below it may each have a
  path of almost that depth, but they are printed as one path.
* A table inside another that has `dateMark` among its names.  In canonical form that name is not
  the first one, or the table would be a date, but it may become the first in print.

The outermost table is not taken for a date, so it may have any names.
-/

namespace Abacus

namespace Toml

mutual

/-- No table inside a value has the name that marks a date. -/
def Value.unmarked : Value → Bool
  | .array elements => unmarkedElements elements
  | .table entries => entries.all (fun e => e.1 != dateMark) && unmarkedEntries entries
  | .string _ | .integer _ | .float _ | .boolean _ | .datetime _ => true

/-- No table inside some elements has it. -/
def unmarkedElements : List Value → Bool
  | [] => true
  | v :: vs => v.unmarked && unmarkedElements vs

/-- No table inside some entries has it. -/
def unmarkedEntries : List (String × Value) → Bool
  | [] => true
  | (_, v) :: es => v.unmarked && unmarkedEntries es

end

theorem unmarkedElements_iff {vs : List Value} :
    unmarkedElements vs = true ↔ ∀ v ∈ vs, v.unmarked = true := by
  induction vs with
  | nil => simp [unmarkedElements]
  | cons v vs ih => rw [unmarkedElements, Bool.and_eq_true, ih, List.forall_mem_cons]

theorem unmarkedEntries_iff {es : Table} :
    unmarkedEntries es = true ↔ ∀ e ∈ es, e.2.unmarked = true := by
  induction es with
  | nil => simp [unmarkedEntries]
  | cons e es ih => rw [unmarkedEntries, Bool.and_eq_true, ih, List.forall_mem_cons]

/-- A table that is read back when it has been printed. -/
structure Table.Writable (table : Table) : Prop where
  shallow : depthEntries table < Lexical.depthLimit
  unmarked : unmarkedEntries table = true

instance (table : Table) : Decidable table.Writable :=
  decidable_of_iff (depthEntries table < Lexical.depthLimit ∧ unmarkedEntries table = true)
    ⟨fun h => ⟨h.1, h.2⟩, fun h => ⟨h.1, h.2⟩⟩

/-! ## The canonical form of what is read -/

theorem exists_canonicalEntries? {es : Table} (hes : ∀ e ∈ es, ∃ w, canonical? e.2 = some w) :
    ∃ fs, canonicalEntries? es = some fs := by
  induction es with
  | nil => exact ⟨[], rfl⟩
  | cons e es ih =>
    rw [List.forall_mem_cons] at hes
    obtain ⟨w, hw⟩ := hes.1
    obtain ⟨fs, hfs⟩ := ih hes.2
    exact ⟨Entries.insert e.1 w fs, by simp [canonicalEntries?, hw, hfs]⟩

/-- Sorted entries are the canonical form of all entries with the same names and values. -/
theorem canonicalEntries?_eq {es fs : Table} (hsame : SameEntries es fs)
    (hes : ∀ e ∈ es, ∃ w, canonical? e.2 = some w) (hfs : Entries.Sorted fs) :
    canonicalEntries? es = some fs := by
  obtain ⟨gs, hgs⟩ := exists_canonicalEntries? hes
  rw [hgs]
  refine congrArg some ((sorted_of_canonicalEntries? hgs).ext hfs fun name => ?_)
  rw [← Entries.lookup_eq_get?, ← Entries.lookup_eq_get?]
  rcases hsame.lookup name with ⟨hnone, hfs⟩ | ⟨v, w, hv, hw, hvalue⟩
  · rcases (sameEntries_canonicalEntries? hgs).lookup name with ⟨-, hgs⟩ | ⟨v, w, hv, -, -⟩
    · rw [hgs, hfs]
    · rw [hnone] at hv
      cases hv
  · rcases (sameEntries_canonicalEntries? hgs).lookup name with ⟨hnone, -⟩ | ⟨v', w', hv', hw', h'⟩
    · rw [hnone] at hv
      cases hv
    · rw [hv, Option.some.injEq] at hv'
      rw [hv', h', Option.some.injEq] at hvalue
      rw [hw', hw, hvalue]

theorem orderedEntries_eq (es : Table) :
    orderedEntries es = (es.filter fun e => hasHeader e.2).map fun e => (e.1, ordered e.2) := by
  induction es with
  | nil => rfl
  | cons e es ih =>
    by_cases h : hasHeader e.2 = true <;> simp [orderedEntries, h, ih]

/-- The value is its own canonical form, also in the order in which it is printed. -/
def Returns (v : Value) : Prop :=
  canonical? v = some v ∧ (hasHeader v = true → canonical? (ordered v) = some v)

theorem exists_canonical_of_returns {es : Table} (hes : ∀ e ∈ es, Returns e.2) :
    ∀ e ∈ plainEntries es ++ orderedEntries es, ∃ w, canonical? e.2 = some w := by
  intro e he
  rcases List.mem_append.mp he with he | he
  · exact ⟨e.2, (hes e (List.mem_filter.mp he).1).1⟩
  · rw [orderedEntries_eq] at he
    obtain ⟨e', he', rfl⟩ := List.mem_map.mp he
    obtain ⟨hmem, hheader⟩ := List.mem_filter.mp he'
    exact ⟨e'.2, (hes e' hmem).2 hheader⟩

theorem sameEntries_self {es : Table} (hes : ∀ e ∈ es, canonical? e.2 = some e.2) :
    SameEntries es es := by
  induction es with
  | nil => exact .nil
  | cons e es ih =>
    rw [List.forall_mem_cons] at hes
    intro name
    rw [Entries.lookup_eq_get?, Entries.get?]
    split
    next => exact .some hes.1
    next => exact Entries.lookup_eq_get? name es ▸ ih hes.2 name

/-- The entries are the same in the order in which they are printed. -/
theorem sameEntries_ordered {es : Table} (hnames : (es.map Prod.fst).Nodup)
    (hes : ∀ e ∈ es, Returns e.2) : SameEntries (plainEntries es ++ orderedEntries es) es := by
  induction es with
  | nil => exact .nil
  | cons e es ih =>
    obtain ⟨key, v⟩ := e
    rw [List.forall_mem_cons] at hes
    rw [List.map_cons, List.nodup_cons] at hnames
    intro name
    have hrest := ih hnames.2 hes.2 name
    rw [Entries.lookup_eq_get?, Entries.lookup_eq_get?, Entries.get?_append] at hrest ⊢
    by_cases hheader : hasHeader v = true
    · have hplain : plainEntries ((key, v) :: es) = plainEntries es :=
        List.filter_cons_of_neg (by simp [hheader])
      rw [hplain, orderedEntries, if_pos hheader, Entries.get?, Entries.get?]
      split
      next heq =>
        have hnone : Entries.get? name (plainEntries es) = none := by
          refine Entries.get?_eq_none_iff.mpr fun hmem => hnames.1 ?_
          rw [heq]
          exact (List.filter_sublist.map _).subset hmem
        rw [hnone]
        exact .some (hes.1.2 hheader)
      next => exact hrest
    · have hplain : plainEntries ((key, v) :: es) = (key, v) :: plainEntries es :=
        List.filter_cons_of_pos (by simp [hheader])
      rw [hplain, orderedEntries, if_neg hheader, Entries.get?, Entries.get?]
      split
      next => exact .some hes.1.1
      next => exact hrest

theorem canonicalEntries?_ordered {es : Table} (hsorted : Entries.Sorted es)
    (hes : ∀ e ∈ es, Returns e.2) :
    canonicalEntries? (plainEntries es ++ orderedEntries es) = some es :=
  canonicalEntries?_eq (sameEntries_ordered hsorted.nodup hes) (exists_canonical_of_returns hes)
    hsorted

theorem canonicalEntries?_self {es : Table} (hsorted : Entries.Sorted es)
    (hes : ∀ e ∈ es, Returns e.2) : canonicalEntries? es = some es :=
  canonicalEntries?_eq (sameEntries_self fun e he => (hes e he).1)
    (fun e he => ⟨e.2, (hes e he).1⟩) hsorted

theorem marked?_eq_none {es : Table} (h : ∀ e ∈ es, e.1 ≠ dateMark) : marked? es = none := by
  cases es with
  | nil => rfl
  | cons e es => exact if_neg (h e List.mem_cons_self)

/-- In print the names are the same. -/
theorem forall_names_ordered {es : Table} {P : String → Prop} (h : ∀ e ∈ es, P e.1) :
    ∀ e ∈ plainEntries es ++ orderedEntries es, P e.1 := by
  intro e he
  rcases List.mem_append.mp he with he | he
  · exact h e (List.mem_filter.mp he).1
  · rw [orderedEntries_eq] at he
    obtain ⟨e', he', rfl⟩ := List.mem_map.mp he
    exact h e' (List.mem_filter.mp he').1

theorem canonicalElements?_map {vs : List Value} {f : Value → Value}
    (h : ∀ v ∈ vs, canonical? (f v) = some v) : canonicalElements? (vs.map f) = some vs := by
  induction vs with
  | nil => rfl
  | cons v vs ih =>
    rw [List.forall_mem_cons] at h
    simp [canonicalElements?, h.1, ih h.2]

theorem orderedElements_eq (vs : List Value) : orderedElements vs = vs.map ordered := by
  induction vs with
  | nil => rfl
  | cons v vs ih => rw [orderedElements, ih, List.map_cons]

/-- **The canonical form restores the order of what is printed.** -/
theorem returns_of_settled {v : Value} (hv : v.Settled) (hmark : v.unmarked = true) :
    Returns v := by
  induction hv with
  | string | integer | float | boolean | datetime =>
    exact ⟨rfl, fun h => absurd h Bool.false_ne_true⟩
  | @array vs _ ih =>
    have hreturns : ∀ v ∈ vs, Returns v := fun v hv =>
      ih v hv (unmarkedElements_iff.mp hmark v hv)
    constructor
    · have hself := canonicalElements?_map (f := id) fun v hv => (hreturns v hv).1
      rw [List.map_id] at hself
      rw [canonical?, hself, Option.map_some]
    · intro hheader
      have htables : ∀ v ∈ vs, hasHeader v = true := by
        intro v hv
        obtain ⟨es, rfl⟩ := (hasHeader_array hheader).2 v hv
        rfl
      rw [ordered, orderedElements_eq, canonical?,
        canonicalElements?_map fun v hv => (hreturns v hv).2 (htables v hv), Option.map_some]
  | @table es hsorted _ ih =>
    rw [Value.unmarked, Bool.and_eq_true, List.all_eq_true] at hmark
    have hnames : ∀ e ∈ es, e.1 ≠ dateMark := fun e he => by simpa using hmark.1 e he
    have hreturns : ∀ e ∈ es, Returns e.2 := fun e he =>
      ih e he (unmarkedEntries_iff.mp hmark.2 e he)
    constructor
    · rw [canonical?, marked?_eq_none hnames]
      exact congrArg (Option.map _) (canonicalEntries?_self hsorted hreturns)
    · intro _
      rw [ordered, canonical?, marked?_eq_none (forall_names_ordered (P := (· ≠ dateMark)) hnames)]
      exact congrArg (Option.map _) (canonicalEntries?_ordered hsorted hreturns)

/-! ## Tables -/

/-- A table that a file can hold, in canonical form. -/
structure Table.Settled (table : Table) : Prop where
  sorted : Entries.Sorted table
  settled : ∀ e ∈ table, e.2.Settled

theorem settled_of_tableOf? {text : String} {table : Table} (h : tableOf? text = some table) :
    table.Settled := by
  obtain ⟨es, hes, hcanonical⟩ := Option.bind_eq_some_iff.mp h
  exact ⟨sorted_of_canonicalEntries? hcanonical, settled_of_canonicalEntries?
    (fun e he {_} hw => (Parser.readable_of_parse? hes e he).canonical hw) hcanonical⟩

/-- **What is printed is read back.** -/
theorem readsBack_of_writable {table : Table} (htable : table.Settled) (h : table.Writable) :
    ReadsBack table := by
  have hreturns : ∀ e ∈ table, Returns e.2 := fun e he =>
    returns_of_settled (htable.settled e he) (unmarkedEntries_iff.mp h.unmarked e he)
  rw [ReadsBack, tableOf?, parse?_print htable.sorted htable.settled h.shallow]
  exact canonicalEntries?_ordered htable.sorted hreturns

/-- The mark is written first, and then `x` should be a date. -/
example : ¬ ReadsBack [("a", .table [(dateMark, .string "x"), ("b", .integer 1)])] := by
  decide +kernel

end Toml

namespace Settings

open Toml (Table Value ReadsBack dateMark)

/-! ## Tables with snapshots -/

theorem forall_mem_insert {P : Value → Prop} {es : Table} (hsorted : Entries.Sorted es)
    (hes : ∀ e ∈ es, P e.2) (key : String) {v : Value} (hv : P v) :
    ∀ e ∈ Entries.insert key v es, P e.2 := by
  intro e he
  rcases Entries.mem_of_mem_insert hsorted he with rfl | he
  · exact hv
  · exact hes e he

/-- The fields of the section that keeps the snapshot are those of a table inside, or there are
none. -/
theorem stateFields_cases {table : Table} (h : Entries.Sorted table) :
    stateFields table = [] ∨ ∃ e ∈ table, e.2 = .table (stateFields table) := by
  unfold stateFields
  split
  next es hget => exact .inr ⟨("state", .table es), (Entries.get?_eq_some_iff h).mp hget, rfl⟩
  next => exact .inl rfl

theorem settled_stateFields {table : Table} (h : table.Settled) :
    Table.Settled (stateFields table) := by
  rcases stateFields_cases h.sorted with heq | ⟨e, he, heq⟩
  · rw [heq]
    exact ⟨.nil, List.forall_mem_nil _⟩
  · have hvalue := h.settled e he
    rw [heq] at hvalue
    cases hvalue with
    | table hsorted hes => exact ⟨hsorted, hes⟩

theorem settled_withSnapshot {table : Table} (h : table.Settled) (snapshot : String) :
    (withSnapshot table snapshot).Settled := by
  obtain ⟨hsorted, hes⟩ := settled_stateFields h
  refine ⟨h.sorted.insert _ _, forall_mem_insert h.sorted h.settled _ (.table ?_ ?_)⟩
  · exact hsorted.insert _ _
  · exact forall_mem_insert hsorted hes _ (.string snapshot)

theorem writable_withSnapshot {table : Table} (hsettled : table.Settled) (h : table.Writable)
    (snapshot : String) : (withSnapshot table snapshot).Writable := by
  have hdepth := Toml.depthEntries_le_iff.mp (Nat.le_pred_of_lt h.shallow)
  have hmark := Toml.unmarkedEntries_iff.mp h.unmarked
  -- The section of the snapshot is a table like any other in the file, or new.
  have hfields : Toml.depthEntries (stateFields table) + 1 < Toml.Lexical.depthLimit ∧
      ∀ e ∈ stateFields table, e.1 ≠ dateMark ∧ e.2.unmarked = true := by
    rcases stateFields_cases hsettled.sorted with heq | ⟨e, he, heq⟩
    · rw [heq]
      exact ⟨by decide, List.forall_mem_nil _⟩
    · have hdeep := hdepth e he
      have hmarked := hmark e he
      rw [heq, Value.depth] at hdeep
      rw [heq, Value.unmarked, Bool.and_eq_true, List.all_eq_true] at hmarked
      refine ⟨Nat.lt_of_le_pred (by decide) hdeep, fun e' he' => ⟨?_, ?_⟩⟩
      · simpa using hmarked.1 e' he'
      · exact Toml.unmarkedEntries_iff.mp hmarked.2 e' he'
  have hsorted := (settled_stateFields hsettled).sorted
  constructor
  · refine Nat.lt_of_le_pred (by decide) (Toml.depthEntries_le_iff.mpr ?_)
    refine forall_mem_insert (P := fun v => v.depth ≤ Toml.Lexical.depthLimit - 1) hsettled.sorted
      hdepth _ ?_
    refine Nat.le_pred_of_lt (lt_of_le_of_lt (Nat.succ_le_succ ?_) hfields.1)
    refine Toml.depthEntries_le_iff.mpr
      (forall_mem_insert (P := fun v => v.depth ≤ _) hsorted ?_ _ (Nat.zero_le _))
    exact Toml.depthEntries_le_iff.mp le_rfl
  · refine Toml.unmarkedEntries_iff.mpr ?_
    refine forall_mem_insert (P := fun v => v.unmarked = true) hsettled.sorted hmark _ ?_
    rw [Value.unmarked, Bool.and_eq_true, List.all_eq_true, Toml.unmarkedEntries_iff]
    constructor
    · intro e he
      rcases Entries.mem_of_mem_insert hsorted he with rfl | he
      · exact (by decide : ("last_state" != dateMark) = true)
      · simpa using (hfields.2 e he).1
    · exact forall_mem_insert (P := fun v => v.unmarked = true) hsorted
        (fun e he => (hfields.2 e he).2) _ rfl

/-- What is loaded of a file is settled. -/
theorem settled_of_loadTable {σ : Type} [Files (StateM σ)] {path : String} [LawfulFiles σ path]
    {table : Table} {w : σ} (h : answer (loadTable path) w = .ok table) : table.Settled := by
  rcases loadTable_eq_ok h with ⟨text, -, htable⟩ | ⟨-, rfl⟩
  · exact Toml.settled_of_tableOf? htable
  · exact ⟨.nil, List.forall_mem_nil _⟩

/-- **A file with a snapshot is read back** if the table of the file can be written. -/
theorem readsBack_withSnapshot {table : Table} (hsettled : table.Settled) (h : table.Writable)
    (snapshot : String) : ReadsBack (withSnapshot table snapshot) :=
  Toml.readsBack_of_writable (settled_withSnapshot hsettled snapshot)
    (writable_withSnapshot hsettled h snapshot)

end Settings

end Abacus
