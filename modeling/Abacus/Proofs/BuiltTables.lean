import Abacus.Proofs.SoundValues
import Abacus.Toml.Printer

/-!
# Tables made up of sections

A printed file names every table once: by a header of its own, or through the headers of the
tables inside it if these are all it holds.  So carrying out its sections never runs into a
contradiction, and every name is put behind the names before it (`foldlM_entrySections`).

## Sections inside a table

The sections that fill a table carry the path to it.  Without that path they are the sections
of a file of its own, and carrying them out behind the path changes the one table in the way in
which it would change the file (`foldlM_under`).  This holds for the newest element of an array
of tables as well, so both are covered by one notion: an item that wraps the entries which a
path enters (`Enters`).

## Order

What is read back is a table with the entries without headers before those with headers
(`ordered`).
-/

namespace Abacus

namespace Entries

variable {α : Type}

/-- Names that increase differ. -/
theorem Sorted.nodup {es : List (String × α)} (h : Sorted es) : (es.map Prod.fst).Nodup := by
  refine List.pairwise_map.mpr (List.Pairwise.imp ?_ h)
  intro a b hlt heq
  exact String.lt_irrefl a.1 (lt_of_lt_of_eq hlt heq.symm)

theorem get?_append (key : String) (es fs : List (String × α)) :
    get? key (es ++ fs) = (get? key es).or (get? key fs) := by
  induction es with
  | nil => rfl
  | cons e es ih =>
    obtain ⟨k, v⟩ := e
    rw [List.cons_append, get?, get?, ih]
    split <;> rfl

theorem get?_eq_none_iff {key : String} {es : List (String × α)} :
    get? key es = none ↔ key ∉ es.map Prod.fst := by
  induction es with
  | nil => simp [get?]
  | cons e es ih =>
    obtain ⟨k, v⟩ := e
    rw [get?, List.map_cons, List.mem_cons, not_or, ← ih]
    split
    next h => simp [h]
    next h => simp [Ne.symm h]

end Entries

namespace Toml

/-- An entry whose key is a single name. -/
def Assignment.ofEntry (e : String × Value) : Assignment :=
  { path := [], key := e.1, value := e.2 }

namespace Document

/-! ## Entries by name -/

theorem get?_put (name key : String) (item : Item) (entries : Items) :
    Entries.get? key (put name item entries) =
      if name = key then some item else Entries.get? key entries := by
  induction entries with
  | nil => simp [put, Entries.get?]
  | cons e entries ih =>
    obtain ⟨k, old⟩ := e
    rw [put]
    split
    next heq =>
      subst heq
      by_cases h : k = key <;> simp [Entries.get?, h]
    next hne =>
      rw [Entries.get?, ih, Entries.get?]
      by_cases h : k = key
      · subst h
        simp [Ne.symm hne]
      · simp [h]

theorem put_put (name : String) (a b : Item) (entries : Items) :
    put name b (put name a entries) = put name b entries := by
  induction entries with
  | nil => simp [put]
  | cons e entries ih =>
    obtain ⟨k, old⟩ := e
    by_cases h : k = name <;> simp [put, h, ih]

theorem put_of_get? {name : String} {item : Item} {entries : Items}
    (h : Entries.get? name entries = some item) : put name item entries = entries := by
  induction entries with
  | nil => cases h
  | cons e entries ih =>
    obtain ⟨k, old⟩ := e
    rw [Entries.get?] at h
    rw [put]
    split
    next heq =>
      rw [if_pos heq, Option.some.injEq] at h
      rw [h]
    next hne =>
      rw [if_neg hne] at h
      rw [ih h]

/-- A new name comes last. -/
theorem put_of_none {name : String} {entries : Items} (item : Item)
    (h : Entries.get? name entries = none) : put name item entries = entries ++ [(name, item)] := by
  induction entries with
  | nil => rfl
  | cons e entries ih =>
    obtain ⟨k, old⟩ := e
    rw [Entries.get?] at h
    split at h
    next => cases h
    next hne => rw [put, if_neg hne, ih h, List.cons_append]

theorem entryValues_append (es fs : Items) :
    entryValues (es ++ fs) = entryValues es ++ entryValues fs := by
  simp only [entryValues_eq, List.map_append]

/-! ## Entries with single names -/

/-- The entries as they stand while the file is read. -/
def valueItems (es : List (String × Value)) : Items := es.map fun e => (e.1, .value e.2)

theorem entryValues_valueItems (es : List (String × Value)) : entryValues (valueItems es) = es := by
  induction es with
  | nil => rfl
  | cons e es ih =>
    show (e.1, e.2) :: entryValues (valueItems es) = e :: es
    rw [ih]

theorem map_fst_valueItems (es : List (String × Value)) :
    (valueItems es).map Prod.fst = es.map Prod.fst := by
  simp [valueItems]

theorem assign?_ofEntry {entries : Items} {e : String × Value}
    (h : Entries.get? e.1 entries = none) :
    assign? entries (.ofEntry e) = some (entries ++ [(e.1, .value e.2)]) := by
  have hdefine : assign? entries (.ofEntry e) = define? e.1 e.2 entries := rfl
  rw [hdefine, define?, h, ← put_of_none _ h]

/-- Entries with different names are put behind each other. -/
theorem assignAll?_append {entries : Items} {es : List (String × Value)}
    (h : (entries.map Prod.fst ++ es.map Prod.fst).Nodup) :
    assignAll? entries (es.map .ofEntry) = some (entries ++ valueItems es) := by
  induction es generalizing entries with
  | nil => simp [assignAll?, valueItems]
  | cons e es ih =>
    have hnone : Entries.get? e.1 entries = none := by
      refine Entries.get?_eq_none_iff.mpr fun hmem => ?_
      exact (List.nodup_append.mp h).2.2 _ hmem _ List.mem_cons_self rfl
    have htail : assignAll? (entries ++ [(e.1, .value e.2)]) (es.map .ofEntry) =
        some (entries ++ [(e.1, .value e.2)] ++ valueItems es) := by
      refine ih ?_
      simpa using h
    unfold assignAll? at htail ⊢
    rw [List.map_cons, List.foldlM_cons, assign?_ofEntry hnone]
    simp only [Option.bind_eq_bind, Option.bind_some, htail]
    simp [valueItems]

theorem assignAll?_ofEntry {es : List (String × Value)} (h : (es.map Prod.fst).Nodup) :
    assignAll? [] (es.map .ofEntry) = some (valueItems es) :=
  assignAll?_append h

theorem inline?_ofEntry {es : List (String × Value)} (h : (es.map Prod.fst).Nodup) :
    inline? (es.map .ofEntry) = some (.table es) := by
  rw [inline?, assignAll?_ofEntry h]
  exact congrArg (fun fs => some (Value.table fs)) (entryValues_valueItems es)

/-! ## Sections behind a path -/

end Document

/-- The section with a name in front of its path. -/
def Section.under (name : String) (s : Section) : Section := { s with path := name :: s.path }

namespace Document

/-- Only a change that asks how the last table came to be depends on where the path begins. -/
theorem update?_here (origin : Origin) (enters : Origin → Bool)
    {f : Origin → Items → Option Items} (hf : ∀ a b es, f a es = f b es) (a b : Origin)
    (path : List String) (es : Items) :
    update? origin enters f a path es = update? origin enters f b path es := by
  cases path with
  | nil => exact hf a b es
  | cons name path => rfl

/-- A section inside an item that wraps some entries is carried out among these. -/
def Enters (wrap : Items → Item) : Prop :=
  ∀ {name : String} {root inner : Items} (s : Section), Entries.get? name root = some (wrap inner) →
    open? root (s.under name) = (open? inner s).map fun inner => put name (wrap inner) root

theorem enters_table (origin : Origin) : Enters (.table origin) := by
  intro name root inner s hget
  show update? .passing (fun _ => true) (fun _ => openIn? s) .header (name :: s.path) root = _
  rw [update?, hget]
  dsimp only
  rw [if_pos rfl, update?_here _ _ (fun _ _ _ => rfl) origin .header]
  rfl

theorem enters_newest (older : List Items) : Enters fun newest => .tables (newest :: older) := by
  intro name root inner s hget
  show update? .passing (fun _ => true) (fun _ => openIn? s) .header (name :: s.path) root = _
  rw [update?, hget]
  rfl

/-- **Sections behind a path** change what the path enters as they change a file. -/
theorem foldlM_under {wrap : Items → Item} (hwrap : Enters wrap) {name : String}
    {root inner : Items} (hget : Entries.get? name root = some (wrap inner)) (ss : List Section) :
    (ss.map (.under name)).foldlM open? root =
      (ss.foldlM open? inner).map fun inner => put name (wrap inner) root := by
  induction ss generalizing root inner with
  | nil => simp [put_of_get? hget]
  | cons s ss ih =>
    rw [List.map_cons, List.foldlM_cons, List.foldlM_cons, hwrap s hget]
    cases open? inner s with
    | none => rfl
    | some inner' =>
      have hput : Entries.get? name (put name (wrap inner') root) = some (wrap inner') := by
        rw [get?_put, if_pos rfl]
      simp only [Option.map_some, Option.bind_eq_bind, Option.bind_some, ih hput, put_put]

/-- The first section behind a new name makes a table that is passed through. -/
theorem foldlM_under_none {name : String} {root : Items} (hget : Entries.get? name root = none)
    {ss : List Section} (hne : ss ≠ []) :
    (ss.map (.under name)).foldlM open? root =
      (ss.foldlM open? []).map fun inner => root ++ [(name, .table .passing inner)] := by
  obtain ⟨s, ss, rfl⟩ := List.exists_cons_of_ne_nil hne
  have hfirst : open? root (s.under name) =
      (open? [] s).map fun inner => put name (.table .passing inner) root := by
    show update? .passing (fun _ => true) (fun _ => openIn? s) .header (name :: s.path) root = _
    rw [update?, hget]
    dsimp only
    rw [update?_here _ _ (fun _ _ _ => rfl) .passing .header]
    rfl
  rw [List.map_cons, List.foldlM_cons, List.foldlM_cons, hfirst]
  cases open? [] s with
  | none => rfl
  | some inner =>
    have hput : Entries.get? name (put name (.table .passing inner) root) =
        some (.table .passing inner) := by
      rw [get?_put, if_pos rfl]
    simp only [Option.map_some, Option.bind_eq_bind, Option.bind_some,
      foldlM_under (enters_table .passing) hput, put_put]
    simp only [put_of_none _ hget]

end Document

/-! ## The sections of a printed file -/

/-- The entries without headers. -/
def plainEntries (es : Table) : Table := es.filter fun e => !hasHeader e.2

mutual

/-- The sections of a value under a name. -/
def valueSections (key : String) : Value → List Section
  | .table entries =>
      let inner := (entrySections entries).map (.under key)
      if showsHeader entries then
        { header := .table, path := [], key
          assignments := (plainEntries entries).map .ofEntry } :: inner
      else inner
  | .array elements => elementSections key elements
  | .string _ | .integer _ | .float _ | .boolean _ | .datetime _ => []

/-- The sections of the entries that have headers. -/
def entrySections : List (String × Value) → List Section
  | [] => []
  | (key, v) :: es =>
      if hasHeader v then valueSections key v ++ entrySections es else entrySections es

/-- The sections of the elements of an array of tables. -/
def elementSections (key : String) : List Value → List Section
  | [] => []
  | .table entries :: vs =>
      { header := .element, path := [], key
        assignments := (plainEntries entries).map .ofEntry } ::
        ((entrySections entries).map (.under key) ++ elementSections key vs)
  | _ :: vs => elementSections key vs

end

mutual

/-- A value with a header with its entries in the order in which they are written. -/
def ordered : Value → Value
  | .table entries => .table (plainEntries entries ++ orderedEntries entries)
  | .array elements => .array (orderedElements elements)
  | .string s => .string s
  | .integer n => .integer n
  | .float x => .float x
  | .boolean b => .boolean b
  | .datetime d => .datetime d

/-- The entries with headers. -/
def orderedEntries : List (String × Value) → List (String × Value)
  | [] => []
  | (key, v) :: es =>
      if hasHeader v then (key, ordered v) :: orderedEntries es else orderedEntries es

/-- The elements of an array of tables. -/
def orderedElements : List Value → List Value
  | [] => []
  | v :: vs => ordered v :: orderedElements vs

end

/-- An array with a header is one of tables. -/
theorem hasHeader_array {vs : List Value} (h : hasHeader (.array vs) = true) :
    vs ≠ [] ∧ ∀ v ∈ vs, ∃ es, v = .table es := by
  obtain ⟨hne, htables⟩ : vs ≠ [] ∧ ∀ v ∈ vs, v.isTable = true := by
    simpa [hasHeader, Value.isTable, Value.isTableArray] using h
  refine ⟨hne, fun v hv => ?_⟩
  have htable := htables v hv
  cases v with
  | table es => exact ⟨es, rfl⟩
  | string | integer | float | boolean | datetime | array => cases htable

namespace Document

/-- The section that opens a table or an element under a name. -/
def opening (header : Header) (key : String) (es : Table) : Section :=
  { header, path := [], key, assignments := (plainEntries es).map .ofEntry }

theorem nodup_plainEntries {es : Table} (h : (es.map Prod.fst).Nodup) :
    ((plainEntries es).map Prod.fst).Nodup :=
  h.sublist (List.filter_sublist.map _)

/-- The sections inside a table put its entries with headers behind the others. -/
def Fills (es : Table) : Prop :=
  ∃ new, (entrySections es).foldlM open? (valueItems (plainEntries es)) =
      some (valueItems (plainEntries es) ++ new) ∧
    entryValues new = orderedEntries es

/-- The sections of a value put it behind the names that are there. -/
def Opens (v : Value) : Prop :=
  hasHeader v = true → ∀ {key : String} {items : Items}, Entries.get? key items = none →
    valueSections key v ≠ [] ∧
    ∃ item, (valueSections key v).foldlM open? items = some (items ++ [(key, item)]) ∧
      itemValue item = ordered v

theorem exists_foldlM_entrySections {es : Table} (hes : ∀ e ∈ es, Opens e.2)
    (hnames : (es.map Prod.fst).Nodup) {items : Items}
    (hnew : ∀ e ∈ es, hasHeader e.2 = true → Entries.get? e.1 items = none) :
    ∃ new, (entrySections es).foldlM open? items = some (items ++ new) ∧
      entryValues new = orderedEntries es := by
  induction es generalizing items with
  | nil => exact ⟨[], by simp [entrySections], rfl⟩
  | cons e es ih =>
    obtain ⟨key, v⟩ := e
    rw [List.forall_mem_cons] at hes hnew
    rw [List.map_cons, List.nodup_cons] at hnames
    by_cases hheader : hasHeader v = true
    · obtain ⟨-, item, hopens, hitem⟩ := hes.1 hheader (hnew.1 hheader)
      have htail : ∀ e ∈ es, hasHeader e.2 = true →
          Entries.get? e.1 (items ++ [(key, item)]) = none := by
        intro e he hheader
        have hne : key ≠ e.1 := fun heq => hnames.1 (List.mem_map.mpr ⟨e, he, heq.symm⟩)
        rw [Entries.get?_append, hnew.2 e he hheader, Option.none_or, Entries.get?, if_neg hne]
        rfl
      obtain ⟨new, hfold, hvalues⟩ := ih hes.2 hnames.2 htail
      refine ⟨(key, item) :: new, ?_, ?_⟩
      · rw [entrySections, if_pos hheader, List.foldlM_append, hopens]
        simp only [Option.bind_eq_bind, Option.bind_some, hfold, List.append_assoc,
          List.singleton_append]
      · rw [entryValues, orderedEntries, if_pos hheader, hitem, hvalues]
    · obtain ⟨new, hfold, hvalues⟩ := ih hes.2 hnames.2 hnew.2
      exact ⟨new, by rw [entrySections, if_neg hheader, hfold],
        by rw [orderedEntries, if_neg hheader, hvalues]⟩

/-- The entries without headers do not have the names of those with headers. -/
theorem get?_valueItems_plainEntries {es : Table} (hnames : (es.map Prod.fst).Nodup)
    {e : String × Value} (he : e ∈ es) (hheader : hasHeader e.2 = true) :
    Entries.get? e.1 (valueItems (plainEntries es)) = none := by
  rw [Entries.get?_eq_none_iff, map_fst_valueItems]
  intro hmem
  obtain ⟨e', he', heq⟩ := List.mem_map.mp hmem
  obtain ⟨hmem', hplain⟩ := List.mem_filter.mp he'
  obtain rfl : e' = e := List.inj_on_of_nodup_map hnames hmem' he heq
  rw [hheader] at hplain
  exact absurd hplain (by decide)

theorem fills_of_opens {es : Table} (hes : ∀ e ∈ es, Opens e.2) (hnames : (es.map Prod.fst).Nodup) :
    Fills es :=
  exists_foldlM_entrySections hes hnames fun _ he hheader =>
    get?_valueItems_plainEntries hnames he hheader

/-! ## Tables -/

theorem open?_table {key : String} {items : Items} {es : Table} (hnames : (es.map Prod.fst).Nodup)
    (hget : Entries.get? key items = none) :
    open? items (opening .table key es) =
      some (put key (.table .header (valueItems (plainEntries es))) items) := by
  show openIn? (opening .table key es) items = _
  have hassign := assignAll?_ofEntry (nodup_plainEntries hnames)
  simp only [openIn?, opening, hget, hassign]
  rfl

/-- Where no header is shown there are only tables inside. -/
theorem of_showsHeader_eq_false {es : Table} (h : showsHeader es = false) :
    plainEntries es = [] ∧ ∃ e es', es = e :: es' ∧ hasHeader e.2 = true := by
  simp only [showsHeader, Bool.or_eq_false_iff, List.isEmpty_eq_false_iff, List.any_eq_false,
    Bool.not_eq_true', Bool.not_eq_false] at h
  obtain ⟨e, es', rfl⟩ := List.exists_cons_of_ne_nil h.1
  refine ⟨List.filter_eq_nil_iff.mpr fun e he => ?_, e, es', rfl, h.2 e List.mem_cons_self⟩
  simp [h.2 e he]

theorem opens_table {es : Table} (hes : ∀ e ∈ es, Opens e.2) (hnames : (es.map Prod.fst).Nodup) :
    Opens (.table es) := by
  intro _ key items hget
  obtain ⟨new, hfold, hvalues⟩ := fills_of_opens hes hnames
  have hvalue : ∀ origin, itemValue (.table origin (valueItems (plainEntries es) ++ new)) =
      ordered (.table es) := by
    intro origin
    rw [itemValue, ordered, entryValues_append, entryValues_valueItems, hvalues]
  cases hshows : showsHeader es with
  | true =>
    have hsections : valueSections key (.table es) =
        opening .table key es :: (entrySections es).map (.under key) := by
      simp [valueSections, hshows, opening]
    refine ⟨by simp [hsections], .table .header (valueItems (plainEntries es) ++ new), ?_,
      hvalue .header⟩
    have hput : Entries.get? key (put key (.table .header (valueItems (plainEntries es))) items) =
        some (.table .header (valueItems (plainEntries es))) := by
      rw [get?_put, if_pos rfl]
    rw [hsections, List.foldlM_cons, open?_table hnames hget]
    simp only [Option.bind_eq_bind, Option.bind_some, foldlM_under (enters_table .header) hput,
      hfold, Option.map_some, put_put]
    rw [put_of_none _ hget]
  | false =>
    obtain ⟨hplain, e, es', rfl, hheader⟩ := of_showsHeader_eq_false hshows
    have hsections : valueSections key (.table (e :: es')) =
        (entrySections (e :: es')).map (.under key) := by
      simp [valueSections, hshows]
    have hne : entrySections (e :: es') ≠ [] := by
      have hnone : Entries.get? e.1 ([] : Items) = none := rfl
      have hfirst := (hes e List.mem_cons_self hheader hnone).1
      rw [entrySections, if_pos hheader]
      exact List.append_ne_nil_of_left_ne_nil hfirst _
    refine ⟨by simp [hsections, hne], .table .passing (valueItems (plainEntries (e :: es')) ++ new),
      ?_, hvalue .passing⟩
    rw [hplain] at hfold ⊢
    rw [hsections, foldlM_under_none hget hne]
    exact congrArg (Option.map _) hfold

/-! ## Arrays of tables -/

section Elements

variable {key : String} {root : Items} {older : List Items}

/-- The array holds these elements, or is not there yet. -/
def HoldsElements (key : String) (root : Items) (older : List Items) : Prop :=
  (Entries.get? key root = none ∧ older = []) ∨ Entries.get? key root = some (.tables older)

theorem open?_element {es : Table} (hnames : (es.map Prod.fst).Nodup)
    (hroot : HoldsElements key root older) :
    open? root (opening .element key es) =
      some (put key (.tables (valueItems (plainEntries es) :: older)) root) := by
  show openIn? (opening .element key es) root = _
  have hassign := assignAll?_ofEntry (nodup_plainEntries hnames)
  rcases hroot with ⟨hget, rfl⟩ | hget
  · simp only [openIn?, opening, hget, hassign]
    rfl
  · simp only [openIn?, opening, hget, hassign]
    rfl

/-- The sections of one element add the element. -/
theorem exists_foldlM_element {es : Table} (hnames : (es.map Prod.fst).Nodup) (hfills : Fills es)
    (hroot : HoldsElements key root older) :
    ∃ t, (opening .element key es :: (entrySections es).map (.under key)).foldlM open? root =
        some (put key (.tables (t :: older)) root) ∧
      Value.table (entryValues t) = ordered (.table es) := by
  obtain ⟨new, hfold, hvalues⟩ := hfills
  have hput : Entries.get? key
      (put key (.tables (valueItems (plainEntries es) :: older)) root) =
        some (.tables (valueItems (plainEntries es) :: older)) := by
    rw [get?_put, if_pos rfl]
  refine ⟨valueItems (plainEntries es) ++ new, ?_, ?_⟩
  · rw [List.foldlM_cons, open?_element hnames hroot]
    simp only [Option.bind_eq_bind, Option.bind_some, foldlM_under (enters_newest older) hput,
      hfold, Option.map_some, put_put]
  · rw [ordered, entryValues_append, entryValues_valueItems, hvalues]

/-- **The sections of some elements add the elements.** -/
theorem exists_foldlM_elementSections {vs : List Value}
    (hvs : ∀ v ∈ vs, ∃ es, v = .table es ∧ (es.map Prod.fst).Nodup ∧ Fills es) (hne : vs ≠ [])
    (hroot : HoldsElements key root older) :
    ∃ ts, (elementSections key vs).foldlM open? root =
        some (put key (.tables (ts.reverse ++ older)) root) ∧
      tableValues ts = orderedElements vs := by
  induction vs generalizing root older with
  | nil => exact absurd rfl hne
  | cons v vs ih =>
    rw [List.forall_mem_cons] at hvs
    obtain ⟨⟨es, rfl, hnames, hfills⟩, hvs⟩ := hvs
    obtain ⟨t, hfold, hvalue⟩ := exists_foldlM_element hnames hfills hroot
    have hsections : elementSections key (.table es :: vs) =
        (opening .element key es :: (entrySections es).map (.under key)) ++
          elementSections key vs := rfl
    rw [hsections, List.foldlM_append, hfold]
    simp only [Option.bind_eq_bind, Option.bind_some]
    by_cases hlast : vs = []
    · subst hlast
      exact ⟨[t], rfl, by rw [tableValues, hvalue]; rfl⟩
    · have hput : HoldsElements key (put key (.tables (t :: older)) root) (t :: older) :=
        .inr (by rw [get?_put, if_pos rfl])
      obtain ⟨ts, hrest, hvalues⟩ := ih hvs hlast hput
      refine ⟨t :: ts, ?_, ?_⟩
      · rw [hrest, put_put]
        simp
      · rw [tableValues, orderedElements, hvalue, hvalues]

end Elements

theorem opens_array {vs : List Value}
    (hvs : ∀ v ∈ vs, ∀ es, v = .table es → (es.map Prod.fst).Nodup ∧ Fills es) :
    Opens (.array vs) := by
  intro hheader key items hget
  obtain ⟨hne, htables⟩ := hasHeader_array hheader
  have helements : ∀ v ∈ vs, ∃ es, v = .table es ∧ (es.map Prod.fst).Nodup ∧ Fills es := by
    intro v hv
    obtain ⟨es, rfl⟩ := htables v hv
    exact ⟨es, rfl, hvs _ hv es rfl⟩
  obtain ⟨ts, hfold, hvalues⟩ := exists_foldlM_elementSections helements hne (.inl ⟨hget, rfl⟩)
  refine ⟨?_, .tables ts.reverse, ?_, ?_⟩
  · obtain ⟨v, vs', rfl⟩ := List.exists_cons_of_ne_nil hne
    obtain ⟨es, rfl, -⟩ := helements _ List.mem_cons_self
    exact List.cons_ne_nil _ _
  · rw [valueSections, hfold, List.append_nil, put_of_none _ hget]
  · rw [itemValue, ordered, tableValues_eq, List.map_reverse, List.reverse_reverse,
      ← tableValues_eq, hvalues]

/-- **The sections of a settled value put it behind the names that are there.** -/
theorem opens_of_settled {v : Value} (hv : v.Settled) :
    Opens v ∧ ∀ es, v = .table es → (es.map Prod.fst).Nodup ∧ Fills es := by
  induction hv with
  | string | integer | float | boolean | datetime =>
    exact ⟨fun h => absurd h Bool.false_ne_true, fun _ h => by cases h⟩
  | array _ ih => exact ⟨opens_array fun v hv => (ih v hv).2, fun _ h => by cases h⟩
  | @table es hsorted _ ih =>
    have hnames := hsorted.nodup
    have hopens : ∀ e ∈ es, Opens e.2 := fun e he => (ih e he).1
    refine ⟨opens_table hopens hnames, fun es' h => ?_⟩
    obtain rfl := Value.table.inj h
    exact ⟨hnames, fills_of_opens hopens hnames⟩

/-- **The sections of a printed file make up the table**, in the order in which it is printed. -/
theorem build?_entrySections {table : Table} (hsorted : Entries.Sorted table)
    (htable : ∀ e ∈ table, e.2.Settled) :
    build? ((plainEntries table).map .ofEntry) (entrySections table) =
      some (plainEntries table ++ orderedEntries table) := by
  obtain ⟨new, hfold, hvalues⟩ :=
    fills_of_opens (fun e he => (opens_of_settled (htable e he)).1) hsorted.nodup
  rw [build?, assignAll?_ofEntry (nodup_plainEntries hsorted.nodup)]
  simp only [Option.bind_eq_bind, Option.bind_some, hfold, entryValues_append,
    entryValues_valueItems, hvalues]
  rfl

end Document

end Toml

end Abacus
