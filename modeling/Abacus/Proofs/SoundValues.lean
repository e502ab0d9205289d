import Abacus.Proofs.DateText
import Abacus.Proofs.RealText
import Abacus.Toml.Canonical
import Abacus.Toml.Parser

/-!
# The values of a file

Not every value of the type comes from a file: the integers of a file fit into a word, its reals
are encodings of floats, and its dates belong to the calendar.  `Value.Sound` says so of all
values inside a value, and that the entries of every table have some property.  A file as it is
read may have its entries in any order (`readable_of_parse?`); in canonical form the names of
every table increase (`Value.Readable.canonical`).

## Items

While a file is read, a name may stand for a table that is still open.  What the table would be
as a value if it were complete is known all the time (`Document.itemValue`), so an item is sound
if that value is, and no notion of its own is needed for open tables.
-/

namespace Abacus

/-- What is stored in sorted entries is one of them. -/
theorem Entries.mem_of_mem_insert {α : Type} {es : List (String × α)} (hes : Sorted es)
    {key : String} {value : α} {e : String × α} (h : e ∈ insert key value es) :
    e = (key, value) ∨ e ∈ es := by
  have hget := (get?_eq_some_iff (hes.insert key value)).mpr h
  rw [get?_insert] at hget
  split at hget
  next heq => exact .inl (Prod.ext heq.symm (Option.some.inj hget).symm)
  next => exact .inr ((get?_eq_some_iff hes).mp hget)

namespace Toml

open Abacus.Text (Reader)
open Lexical

/-- The value is one that a file can hold, where the tables inside it have a property. -/
inductive Value.Sound (P : Table → Prop) : Value → Prop
  | string (s : String) : Value.Sound P (.string s)
  | integer {n : Int} : (Number.fit? n).isSome = true → Value.Sound P (.integer n)
  | float {x : Double} : IsKept x → Value.Sound P (.float x)
  | boolean (b : Bool) : Value.Sound P (.boolean b)
  | datetime {d : Datetime} : d.InCalendar → Value.Sound P (.datetime d)
  | array {vs : List Value} : (∀ v ∈ vs, v.Sound P) → Value.Sound P (.array vs)
  | table {es : Table} : P es → (∀ e ∈ es, e.2.Sound P) → Value.Sound P (.table es)

/-- A value of a file. -/
abbrev Value.Readable (v : Value) : Prop := v.Sound fun _ => True

/-- A value of a file in canonical form. -/
abbrev Value.Settled (v : Value) : Prop := v.Sound Entries.Sorted

/-- The reader gives values of a file. -/
def GivesReadable (reader : Reader Value) : Prop :=
  ∀ {cs : List Char} {v : Value} {rest : List Char}, reader cs = some (v, rest) → v.Readable

/-! ## Scalars -/

theorem readable_of_integerOf? {negative : Bool} {n : Nat} {v : Value}
    (h : integerOf? negative n = some v) : v.Readable := by
  have hfits : ∀ m : Int, (if (Number.fit? m).isSome then some (Value.integer m) else none) =
      some v → v.Readable := by
    intro m hm
    split at hm
    next hfits => exact Option.some.inj hm ▸ .integer hfits
    next => cases hm
  exact hfits _ h

theorem givesReadable_integerIn (base : Nat) : GivesReadable (integerIn base) := by
  intro cs v rest h
  simp only [integerIn, Option.bind_eq_bind, Option.bind_eq_some_iff, Option.pure_def] at h
  obtain ⟨_, _, _, _, v', hv, h⟩ := h
  obtain ⟨rfl, -⟩ := Prod.mk.inj (Option.some.inj h)
  exact readable_of_integerOf? hv

theorem givesReadable_integer : GivesReadable integer := by
  intro cs v rest h
  unfold integer at h
  split at h
  next => exact givesReadable_integerIn 16 h
  next => exact givesReadable_integerIn 8 h
  next => exact givesReadable_integerIn 2 h
  next =>
    simp only [Option.bind_eq_bind, Option.bind_eq_some_iff, Option.pure_def] at h
    obtain ⟨_, _, _, _, _, _, v', hv, h⟩ := h
    obtain ⟨rfl, -⟩ := Prod.mk.inj (Option.some.inj h)
    exact readable_of_integerOf? hv

theorem readable_floatOf (negative : Bool) (x : Float) : (floatOf negative x).Readable :=
  .float ⟨_, rfl⟩

theorem givesReadable_decimal : GivesReadable decimal := by
  intro cs v rest h
  simp only [decimal, Option.bind_eq_bind, Option.bind_eq_some_iff, Option.pure_def] at h
  obtain ⟨_, _, _, _, _, _, _, _, h⟩ := h
  split at h
  next => cases h
  next =>
    obtain ⟨_, -, h⟩ := Option.bind_eq_some_iff.mp h
    split at h
    next =>
      obtain ⟨rfl, -⟩ := Prod.mk.inj (Option.some.inj h)
      exact readable_floatOf _ _
    next => cases h

theorem givesReadable_special : GivesReadable special := by
  intro cs v rest h
  simp only [special, Option.bind_eq_bind, Option.bind_eq_some_iff, Option.pure_def] at h
  obtain ⟨_, _, h⟩ := h
  split at h
  next =>
    obtain ⟨rfl, -⟩ := Prod.mk.inj (Option.some.inj h)
    exact readable_floatOf _ _
  next =>
    obtain ⟨rfl, -⟩ := Prod.mk.inj (Option.some.inj h)
    exact readable_floatOf _ _
  next => cases h

theorem givesReadable_scalar : GivesReadable scalar := by
  intro cs v rest h
  unfold scalar at h
  split at h
  next =>
    obtain ⟨_, _, heq⟩ := Option.map_eq_some_iff.mp h
    obtain ⟨rfl, -⟩ := Prod.mk.inj heq
    exact .string _
  next =>
    obtain ⟨_, _, heq⟩ := Option.map_eq_some_iff.mp h
    obtain ⟨rfl, -⟩ := Prod.mk.inj heq
    exact .string _
  next =>
    obtain ⟨_, _, heq⟩ := Option.map_eq_some_iff.mp h
    obtain ⟨rfl, -⟩ := Prod.mk.inj heq
    exact .boolean _
  next =>
    obtain ⟨_, _, heq⟩ := Option.map_eq_some_iff.mp h
    obtain ⟨rfl, -⟩ := Prod.mk.inj heq
    exact .boolean _
  next =>
    simp only [Option.orElse_eq_orElse, Option.orElse_eq_or, Option.or_eq_some_iff] at h
    rcases h with h | ⟨-, h | ⟨-, h | ⟨-, h⟩⟩⟩
    · obtain ⟨⟨d, rest'⟩, hd, heq⟩ := Option.map_eq_some_iff.mp h
      obtain ⟨rfl, -⟩ := Prod.mk.inj heq
      exact .datetime (inCalendar_of_datetime hd)
    · exact givesReadable_decimal h
    · exact givesReadable_special h
    · exact givesReadable_integer h

/-! ## Open tables -/

namespace Document

theorem entryValues_eq (es : Items) :
    entryValues es = es.map fun e => (e.1, itemValue e.2) := by
  induction es with
  | nil => rfl
  | cons e es ih => rw [entryValues, ih, List.map_cons]

theorem tableValues_eq (ts : List Items) :
    tableValues ts = ts.map fun t => .table (entryValues t) := by
  induction ts with
  | nil => rfl
  | cons t ts ih => rw [tableValues, ih, List.map_cons]

/-- All items are values of a file, or would be if they were complete. -/
def Readable (es : Items) : Prop := ∀ e ∈ es, (itemValue e.2).Readable

theorem readable_table_iff (origin : Origin) {es : Items} :
    (itemValue (.table origin es)).Readable ↔ Readable es := by
  rw [itemValue, entryValues_eq]
  constructor
  · intro h e he
    cases h with
    | table _ hes => exact hes _ (List.mem_map_of_mem he)
  · intro h
    refine .table trivial fun e he => ?_
    obtain ⟨e', he', rfl⟩ := List.mem_map.mp he
    exact h e' he'

theorem readable_tables_iff {ts : List Items} :
    (itemValue (.tables ts)).Readable ↔ ∀ t ∈ ts, Readable t := by
  have htable : ∀ t : Items, (Value.table (entryValues t)).Readable ↔ Readable t := fun t =>
    readable_table_iff .header
  rw [itemValue, tableValues_eq]
  constructor
  · intro h t ht
    cases h with
    | array hvs => exact (htable t).mp (hvs _ (List.mem_reverse.mpr (List.mem_map_of_mem ht)))
  · intro h
    refine .array fun v hv => ?_
    obtain ⟨t, ht, rfl⟩ := List.mem_map.mp (List.mem_reverse.mp hv)
    exact (htable t).mpr (h t ht)

theorem Readable.get? {name : String} {item : Item} {es : Items} (hes : Readable es)
    (h : Entries.get? name es = some item) : (itemValue item).Readable := by
  induction es with
  | nil => cases h
  | cons e es ih =>
    obtain ⟨k, v⟩ := e
    rw [Readable, List.forall_mem_cons] at hes
    rw [Entries.get?] at h
    split at h
    next => exact Option.some.inj h ▸ hes.1
    next => exact ih hes.2 h

theorem Readable.put {es : Items} (hes : Readable es) (name : String) {item : Item}
    (hitem : (itemValue item).Readable) : Readable (put name item es) := by
  induction es with
  | nil => exact List.forall_mem_singleton.mpr hitem
  | cons e es ih =>
    obtain ⟨k, v⟩ := e
    rw [Readable, List.forall_mem_cons] at hes
    unfold Document.put
    split
    · exact List.forall_mem_cons.mpr ⟨hitem, hes.2⟩
    · exact List.forall_mem_cons.mpr ⟨hes.1, ih hes.2⟩

theorem Readable.remove {es : Items} (hes : Readable es) (name : String) :
    Readable (remove name es) :=
  fun e he => hes e (List.mem_of_mem_filter he)

/-- What is done to the table at the end of a path is done to a part of the whole. -/
theorem Readable.update? {origin : Origin} {enters : Origin → Bool}
    {f : Origin → Items → Option Items}
    (hf : ∀ {here : Origin} {es fs : Items}, Readable es → f here es = some fs → Readable fs)
    {here : Origin} {path : List String} {es fs : Items} (hes : Readable es)
    (h : update? origin enters f here path es = some fs) : Readable fs := by
  induction path generalizing here es fs with
  | nil => exact hf hes h
  | cons name path ih =>
    unfold Document.update? at h
    split at h
    next =>
      obtain ⟨inner, hinner, rfl⟩ := Option.map_eq_some_iff.mp h
      exact hes.put name ((readable_table_iff _).mpr (ih (List.forall_mem_nil _) hinner))
    next there inner hget =>
      split at h
      next =>
        obtain ⟨inner', hinner, rfl⟩ := Option.map_eq_some_iff.mp h
        have hold := (readable_table_iff _).mp (hes.get? hget)
        exact hes.put name ((readable_table_iff _).mpr (ih hold hinner))
      next => cases h
    next newest older hget =>
      obtain ⟨inner, hinner, rfl⟩ := Option.map_eq_some_iff.mp h
      have hold := List.forall_mem_cons.mp (readable_tables_iff.mp (hes.get? hget))
      exact hes.put name (readable_tables_iff.mpr
        (List.forall_mem_cons.mpr ⟨ih hold.1 hinner, hold.2⟩))
    next => cases h
    next => cases h

theorem Readable.assign? {es fs : Items} (hes : Readable es) {a : Assignment}
    (ha : a.value.Readable) (h : assign? es a = some fs) : Readable fs := by
  refine Readable.update? (fun {here es fs} hes h => ?_) hes h
  split at h
  next =>
    unfold define? at h
    split at h
    next =>
      obtain rfl := Option.some.inj h
      exact hes.put a.key ha
    next => cases h
  next => cases h

theorem Readable.assignAll? {es fs : Items} (hes : Readable es) {as : List Assignment}
    (has : ∀ a ∈ as, a.value.Readable) (h : assignAll? es as = some fs) : Readable fs := by
  induction as generalizing es with
  | nil =>
    obtain rfl := Option.some.inj h
    exact hes
  | cons a as ih =>
    rw [List.forall_mem_cons] at has
    simp only [Document.assignAll?, List.foldlM_cons, Option.bind_eq_bind,
      Option.bind_eq_some_iff] at h
    obtain ⟨gs, hgs, h⟩ := h
    exact ih (hes.assign? has.1 hgs) has.2 h

theorem readable_of_assignAll? {as : List Assignment} (has : ∀ a ∈ as, a.value.Readable)
    {fs : Items} (h : assignAll? [] as = some fs) : Readable fs :=
  Readable.assignAll? (List.forall_mem_nil _) has h

theorem Readable.openIn? {es fs : Items} (hes : Readable es) {s : Section}
    (hs : ∀ a ∈ s.assignments, a.value.Readable) (h : openIn? s es = some fs) : Readable fs := by
  unfold Document.openIn? at h
  split at h
  next =>
    simp only [Option.bind_eq_bind, Option.bind_eq_some_iff, Option.pure_def] at h
    obtain ⟨inner, hinner, h⟩ := h
    exact Option.some.inj h ▸
      hes.put _ ((readable_table_iff _).mpr (readable_of_assignAll? hs hinner))
  next entries hget =>
    simp only [Option.bind_eq_bind, Option.bind_eq_some_iff, Option.pure_def] at h
    obtain ⟨inner, hinner, h⟩ := h
    have hold := (readable_table_iff _).mp (hes.get? hget)
    exact Option.some.inj h ▸
      (hes.remove _).put _ ((readable_table_iff _).mpr (hold.assignAll? hs hinner))
  next => cases h
  next =>
    simp only [Option.bind_eq_bind, Option.bind_eq_some_iff, Option.pure_def] at h
    obtain ⟨inner, hinner, h⟩ := h
    refine Option.some.inj h ▸ hes.put _ (readable_tables_iff.mpr ?_)
    exact List.forall_mem_singleton.mpr (readable_of_assignAll? hs hinner)
  next elements hget =>
    simp only [Option.bind_eq_bind, Option.bind_eq_some_iff, Option.pure_def] at h
    obtain ⟨inner, hinner, h⟩ := h
    refine Option.some.inj h ▸ hes.put _ (readable_tables_iff.mpr ?_)
    exact List.forall_mem_cons.mpr
      ⟨readable_of_assignAll? hs hinner, readable_tables_iff.mp (hes.get? hget)⟩
  next => cases h

theorem Readable.foldlM_open? {root fs : Items} (hroot : Readable root) {ss : List Section}
    (hss : ∀ s ∈ ss, ∀ a ∈ s.assignments, a.value.Readable)
    (h : ss.foldlM open? root = some fs) : Readable fs := by
  induction ss generalizing root with
  | nil =>
    obtain rfl := Option.some.inj h
    exact hroot
  | cons s ss ih =>
    rw [List.forall_mem_cons] at hss
    simp only [List.foldlM_cons, Option.bind_eq_bind, Option.bind_eq_some_iff] at h
    obtain ⟨gs, hgs, h⟩ := h
    have hopened : Readable gs :=
      Readable.update? (fun hes h => Readable.openIn? hes hss.1 h) hroot hgs
    exact ih hopened hss.2 h

/-- **A file of readable values makes up a readable table.** -/
theorem readable_of_build? {as : List Assignment} {ss : List Section}
    (has : ∀ a ∈ as, a.value.Readable)
    (hss : ∀ s ∈ ss, ∀ a ∈ s.assignments, a.value.Readable) {table : Table}
    (h : build? as ss = some table) : ∀ e ∈ table, e.2.Readable := by
  simp only [build?, Option.bind_eq_bind, Option.bind_eq_some_iff, Option.pure_def] at h
  obtain ⟨root, hroot, fs, hfs, h⟩ := h
  obtain rfl := Option.some.inj h
  have hreadable := (readable_of_assignAll? has hroot).foldlM_open? hss hfs
  rw [entryValues_eq]
  intro e he
  obtain ⟨e', he', rfl⟩ := List.mem_map.mp he
  exact hreadable e' he'

theorem readable_of_inline? {as : List Assignment} (has : ∀ a ∈ as, a.value.Readable) {v : Value}
    (h : inline? as = some v) : v.Readable := by
  simp only [inline?, Option.bind_eq_bind, Option.bind_eq_some_iff, Option.pure_def] at h
  obtain ⟨fs, hfs, h⟩ := h
  obtain rfl := Option.some.inj h
  exact (readable_table_iff .header).mpr (readable_of_assignAll? has hfs)

end Document

/-! ## Files -/

namespace Parser

theorem readable_of_elements {reader : Reader Value} (hreader : GivesReadable reader) {fuel : Nat}
    {cs rest : List Char} {vs : List Value} (h : elements reader fuel cs = some (vs, rest)) :
    ∀ v ∈ vs, v.Readable := by
  induction fuel generalizing cs rest vs with
  | zero => cases h
  | succ fuel ih =>
    simp only [elements, Option.bind_eq_bind, Option.bind_eq_some_iff] at h
    obtain ⟨cs, -, h⟩ := h
    split at h
    next =>
      obtain ⟨rfl, -⟩ := Prod.mk.inj (Option.some.inj h)
      exact List.forall_mem_nil _
    next =>
      simp only [Option.bind_eq_some_iff] at h
      obtain ⟨⟨v, cs⟩, hv, cs', -, h⟩ := h
      have hhead := hreader hv
      split at h
      next =>
        simp only [Option.bind_eq_some_iff] at h
        obtain ⟨⟨vs, cs⟩, hvs, h⟩ := h
        obtain ⟨rfl, -⟩ := Prod.mk.inj (Option.some.inj h)
        exact List.forall_mem_cons.mpr ⟨hhead, ih hvs⟩
      next =>
        obtain ⟨rfl, -⟩ := Prod.mk.inj (Option.some.inj h)
        exact List.forall_mem_singleton.mpr hhead
      next => cases h

theorem readable_of_assignment {reader : Reader Value} (hreader : GivesReadable reader)
    {cs rest : List Char} {a : Assignment} (h : assignment reader cs = some (a, rest)) :
    a.value.Readable := by
  simp only [assignment, Option.bind_eq_bind, Option.bind_eq_some_iff, Option.pure_def] at h
  obtain ⟨_, _, _, _, ⟨v, _⟩, hv, h⟩ := h
  obtain ⟨rfl, -⟩ := Prod.mk.inj (Option.some.inj h)
  exact hreader hv

theorem readable_of_inlineEntries {reader : Reader Value} (hreader : GivesReadable reader)
    {fuel : Nat} {cs rest : List Char} {as : List Assignment}
    (h : inlineEntries reader fuel cs = some (as, rest)) : ∀ a ∈ as, a.value.Readable := by
  induction fuel generalizing cs rest as with
  | zero => cases h
  | succ fuel ih =>
    simp only [inlineEntries, Option.bind_eq_bind, Option.bind_eq_some_iff] at h
    obtain ⟨⟨a, cs⟩, ha, h⟩ := h
    have hhead := readable_of_assignment hreader ha
    split at h
    next =>
      simp only [Option.bind_eq_some_iff] at h
      obtain ⟨⟨as, cs⟩, has, h⟩ := h
      obtain ⟨rfl, -⟩ := Prod.mk.inj (Option.some.inj h)
      exact List.forall_mem_cons.mpr ⟨hhead, ih has⟩
    next =>
      obtain ⟨rfl, -⟩ := Prod.mk.inj (Option.some.inj h)
      exact List.forall_mem_singleton.mpr hhead
    next => cases h

theorem givesReadable_inlineTable {reader : Reader Value} (hreader : GivesReadable reader) :
    GivesReadable (inlineTable reader) := by
  intro cs v rest h
  unfold inlineTable at h
  split at h
  next =>
    obtain ⟨rfl, -⟩ := Prod.mk.inj (Option.some.inj h)
    exact .table trivial (List.forall_mem_nil _)
  next =>
    simp only [Option.bind_eq_bind, Option.bind_eq_some_iff, Option.pure_def] at h
    obtain ⟨⟨as, cs⟩, has, v', hv, h⟩ := h
    obtain ⟨rfl, -⟩ := Prod.mk.inj (Option.some.inj h)
    exact Document.readable_of_inline? (readable_of_inlineEntries hreader has) hv

theorem givesReadable_value (depth : Nat) : GivesReadable (value depth) := by
  induction depth with
  | zero =>
    intro cs v rest h
    unfold value at h
    split at h
    next => cases h
    next => cases h
    all_goals first | exact givesReadable_scalar h | contradiction
  | succ depth ih =>
    intro cs v rest h
    unfold value at h
    split at h
    next => contradiction
    next => contradiction
    next heq =>
      obtain rfl := Nat.succ.inj heq
      obtain ⟨⟨vs, cs⟩, hvs, heq⟩ := Option.map_eq_some_iff.mp h
      obtain ⟨rfl, -⟩ := Prod.mk.inj heq
      exact .array (readable_of_elements ih hvs)
    next heq =>
      obtain rfl := Nat.succ.inj heq
      exact givesReadable_inlineTable ih h
    next => exact givesReadable_scalar h

theorem readable_of_sections {fuel : Nat} {cs : List Char} {as : List Assignment}
    {ss : List Section} (h : sections fuel cs = some (as, ss)) :
    (∀ a ∈ as, a.value.Readable) ∧ ∀ s ∈ ss, ∀ a ∈ s.assignments, a.value.Readable := by
  induction fuel generalizing cs as ss with
  | zero => cases h
  | succ fuel ih =>
    unfold sections at h
    split at h
    next =>
      obtain ⟨rfl, rfl⟩ := Prod.mk.inj (Option.some.inj h)
      exact ⟨List.forall_mem_nil _, List.forall_mem_nil _⟩
    next =>
      simp only [Option.bind_eq_bind, Option.bind_eq_some_iff, Option.pure_def] at h
      obtain ⟨⟨⟨header, path, key⟩, cs⟩, -, ⟨as, ss⟩, hrest, h⟩ := h
      obtain ⟨rfl, rfl⟩ := Prod.mk.inj (Option.some.inj h)
      obtain ⟨has, hss⟩ := ih hrest
      exact ⟨List.forall_mem_nil _, List.forall_mem_cons.mpr ⟨has, hss⟩⟩
    next =>
      split at h
      next =>
        simp only [Option.bind_eq_bind, Option.bind_eq_some_iff] at h
        obtain ⟨_, -, h⟩ := h
        exact ih h
      next =>
        simp only [Option.bind_eq_bind, Option.bind_eq_some_iff, Option.pure_def, entryLine] at h
        obtain ⟨⟨a, cs⟩, hentry, ⟨as, ss⟩, hrest, h⟩ := h
        obtain ⟨⟨a', cs'⟩, ha, _, -, hentry⟩ := hentry
        obtain ⟨rfl, -⟩ := Prod.mk.inj (Option.some.inj hentry)
        obtain ⟨rfl, rfl⟩ := Prod.mk.inj (Option.some.inj h)
        obtain ⟨has, hss⟩ := ih hrest
        exact ⟨List.forall_mem_cons.mpr
          ⟨readable_of_assignment (givesReadable_value _) ha, has⟩, hss⟩

/-- **What is read of a file are values of a file.** -/
theorem readable_of_parse? {text : String} {table : Table} (h : parse? text = some table) :
    ∀ e ∈ table, e.2.Readable := by
  simp only [parse?, Option.bind_eq_bind, Option.bind_eq_some_iff] at h
  obtain ⟨⟨as, ss⟩, hsections, h⟩ := h
  obtain ⟨has, hss⟩ := readable_of_sections hsections
  exact Document.readable_of_build? has hss h

end Parser

/-! ## Canonical form -/

theorem inCalendar_of_ofText? {text : String} {d : Datetime} (h : Datetime.ofText? text = some d) :
    d.InCalendar := by
  unfold Datetime.ofText? at h
  split at h
  next hd => exact Option.some.inj h ▸ inCalendar_of_datetime hd
  next => cases h

theorem settled_of_canonicalElements? {vs ws : List Value}
    (hvs : ∀ v ∈ vs, ∀ {w}, canonical? v = some w → w.Settled)
    (h : canonicalElements? vs = some ws) : ∀ w ∈ ws, w.Settled := by
  induction vs generalizing ws with
  | nil =>
    obtain rfl := Option.some.inj h
    exact List.forall_mem_nil _
  | cons v vs ih =>
    rw [List.forall_mem_cons] at hvs
    obtain ⟨w, ws, hw, hws, rfl⟩ := canonicalElements?_cons_eq_some_iff.mp h
    exact List.forall_mem_cons.mpr ⟨hvs.1 hw, ih hvs.2 hws⟩

theorem settled_of_canonicalEntries? {es fs : Table}
    (hes : ∀ e ∈ es, ∀ {w}, canonical? e.2 = some w → w.Settled)
    (h : canonicalEntries? es = some fs) : ∀ e ∈ fs, e.2.Settled := by
  induction es generalizing fs with
  | nil =>
    obtain rfl := Option.some.inj h
    exact List.forall_mem_nil _
  | cons e es ih =>
    obtain ⟨key, v⟩ := e
    rw [List.forall_mem_cons] at hes
    obtain ⟨w, fs, hw, hfs, rfl⟩ := canonicalEntries?_cons_eq_some_iff.mp h
    intro e he
    rcases Entries.mem_of_mem_insert (sorted_of_canonicalEntries? hfs) he with rfl | he
    · exact hes.1 hw
    · exact ih hes.2 hfs e he

/-- **The canonical form of a value of a file is settled.** -/
theorem Value.Readable.canonical {v w : Value} (hv : v.Readable) (h : canonical? v = some w) :
    w.Settled := by
  induction hv generalizing w with
  | string s => exact Option.some.inj h ▸ .string s
  | integer hn => exact Option.some.inj h ▸ .integer hn
  | float hx => exact Option.some.inj h ▸ .float hx
  | boolean b => exact Option.some.inj h ▸ .boolean b
  | datetime hd => exact Option.some.inj h ▸ .datetime hd
  | array hvs ih =>
    rw [canonical?] at h
    obtain ⟨ws, hws, rfl⟩ := Option.map_eq_some_iff.mp h
    exact .array (settled_of_canonicalElements? ih hws)
  | table _ hes ih =>
    rw [canonical?] at h
    split at h
    next =>
      obtain ⟨text, d, -, hd, rfl⟩ := markedDate?_eq_some_iff.mp h
      exact .datetime (inCalendar_of_ofText? hd)
    next =>
      obtain ⟨fs, hfs, rfl⟩ := Option.map_eq_some_iff.mp h
      exact .table (sorted_of_canonicalEntries? hfs) (settled_of_canonicalEntries? ih hfs)

end Toml

end Abacus
