/-!
# Dictionaries in key order

Variables, save slots and the tables of a settings file are all looked up by name
and all listed in the order of their names.  A dictionary is therefore a list of
entries whose keys strictly increase.

## Why a sorted list and not a tree

Two dictionaries with the same entries are *equal*, not merely equivalent: the
invariant leaves one representation for each finite map (`Dict.ext_get?`).  "Loading
a slot makes the variables exactly what they were" is then an equation.  The
dictionaries of a calculator are small, so a linear search costs nothing that a user
could notice.

The order is that of the code points, which is also the order of the UTF-8 bytes.

The operations on bare entry lists live in `Entries`, because the values of a
settings file nest dictionaries inside themselves and cannot carry the proof.
-/

namespace Abacus

namespace Entries

variable {α β : Type}

/-- Keys that strictly increase along the list. -/
def Sorted (es : List (String × α)) : Prop :=
  es.Pairwise fun a b => a.1 < b.1

/-- The value stored under `key`, if any. -/
def get? (key : String) : List (String × α) → Option α
  | [] => none
  | (k, v) :: es => if k = key then some v else get? key es

/-- Stores `value` under `key`, in place of what was stored there before. -/
def insert (key : String) (value : α) : List (String × α) → List (String × α)
  | [] => [(key, value)]
  | (k, v) :: es =>
      if key < k then (key, value) :: (k, v) :: es
      else if key = k then (key, value) :: es
      else (k, v) :: insert key value es

/-- Applies `f` to every value. -/
def mapValues (f : α → β) (es : List (String × α)) : List (String × β) :=
  es.map fun e => (e.1, f e.2)

/-- Of two different keys, one comes first. -/
theorem lt_of_not_lt_of_ne {a b : String} (h : ¬ a < b) (hne : a ≠ b) : b < a :=
  Decidable.byContradiction fun h' => hne (String.le_antisymm h' h)

theorem fst_of_mem_insert {key : String} {value : α} {es : List (String × α)}
    {e : String × α} (h : e ∈ insert key value es) : e.1 = key ∨ e ∈ es := by
  induction es with
  | nil => simp only [insert, List.mem_singleton] at h; exact .inl (by rw [h])
  | cons x es ih =>
      obtain ⟨k, v⟩ := x
      unfold insert at h
      split at h
      · rcases List.mem_cons.mp h with rfl | h
        · exact .inl rfl
        · exact .inr h
      · split at h
        · rcases List.mem_cons.mp h with rfl | h
          · exact .inl rfl
          · exact .inr (List.mem_cons_of_mem _ h)
        · rcases List.mem_cons.mp h with rfl | h
          · exact .inr List.mem_cons_self
          · rcases ih h with h | h
            · exact .inl h
            · exact .inr (List.mem_cons_of_mem _ h)

theorem Sorted.insert {es : List (String × α)} (h : Sorted es) (key : String) (value : α) :
    Sorted (insert key value es) := by
  induction es with
  | nil => exact List.pairwise_singleton _ _
  | cons x es ih =>
      obtain ⟨k, v⟩ := x
      obtain ⟨hk, hes⟩ := List.pairwise_cons.mp h
      unfold Entries.insert
      split
      next hlt =>
        refine List.pairwise_cons.mpr ⟨fun e he => ?_, h⟩
        rcases List.mem_cons.mp he with rfl | he
        · exact hlt
        · exact String.lt_trans hlt (hk e he)
      next hlt =>
        split
        next heq => subst heq; exact List.pairwise_cons.mpr ⟨hk, hes⟩
        next hne =>
          refine List.pairwise_cons.mpr ⟨fun e he => ?_, ih hes⟩
          rcases fst_of_mem_insert he with he | he
          · rw [he]; exact lt_of_not_lt_of_ne hlt hne
          · exact hk e he

@[simp] theorem mapValues_nil (f : α → β) : mapValues f [] = [] := rfl

@[simp] theorem mapValues_cons (f : α → β) (e : String × α) (es : List (String × α)) :
    mapValues f (e :: es) = (e.1, f e.2) :: mapValues f es := rfl

@[simp] theorem length_mapValues (f : α → β) (es : List (String × α)) :
    (mapValues f es).length = es.length :=
  List.length_map _

theorem Sorted.mapValues {es : List (String × α)} (h : Sorted es) (f : α → β) :
    Sorted (mapValues f es) :=
  List.pairwise_map.mpr h

theorem get?_insert (key key' : String) (value : α) (es : List (String × α)) :
    get? key' (insert key value es) = if key = key' then some value else get? key' es := by
  induction es with
  | nil => simp [insert, get?]
  | cons x es ih =>
      obtain ⟨k, v⟩ := x
      unfold insert
      split
      next => simp [get?]
      next =>
        split
        next heq =>
          subst heq
          by_cases h : key = key' <;> simp [get?, h]
        next hne =>
          by_cases h : k = key'
          · subst h; simp [get?, hne]
          · simp [get?, h, ih]

theorem get?_mapValues (f : α → β) (key : String) (es : List (String × α)) :
    get? key (mapValues f es) = (get? key es).map f := by
  induction es with
  | nil => rfl
  | cons x es ih =>
      obtain ⟨k, v⟩ := x
      by_cases h : k = key
      · simp [mapValues, get?, h]
      · simp only [mapValues, List.map_cons, get?, h, if_false]
        exact ih

/-- A key below all keys of the list has no value there. -/
theorem get?_eq_none_of_forall_lt {key : String} {es : List (String × α)}
    (h : ∀ e ∈ es, key < e.1) : get? key es = none := by
  induction es with
  | nil => rfl
  | cons x es ih =>
      obtain ⟨k, v⟩ := x
      have hk : key < k := h (k, v) List.mem_cons_self
      have hne : k ≠ key := fun heq => String.lt_irrefl _ (heq ▸ hk)
      simp only [get?, hne, if_false]
      exact ih fun e he => h e (List.mem_cons_of_mem _ he)

/-- In a sorted list every entry is found under its key. -/
theorem get?_eq_some_iff {key : String} {value : α} {es : List (String × α)} (h : Sorted es) :
    get? key es = some value ↔ (key, value) ∈ es := by
  induction es with
  | nil => simp [get?]
  | cons x es ih =>
      obtain ⟨k, v⟩ := x
      obtain ⟨hk, hes⟩ := List.pairwise_cons.mp h
      rw [get?, List.mem_cons, Prod.mk.injEq]
      split
      next heq =>
        subst heq
        have hnot : (k, value) ∉ es := fun hmem => String.lt_irrefl k (hk (k, value) hmem)
        simp [hnot, eq_comm]
      next hne => simp [ih hes, Ne.symm hne]

/-- Sorted entry lists that answer every look-up alike are the same list. -/
theorem Sorted.ext {es fs : List (String × α)} (hes : Sorted es) (hfs : Sorted fs)
    (h : ∀ key, get? key es = get? key fs) : es = fs := by
  induction es generalizing fs with
  | nil =>
      cases fs with
      | nil => rfl
      | cons y fs => have := h y.1; simp [get?] at this
  | cons x es ih =>
      obtain ⟨k, v⟩ := x
      obtain ⟨hk, hes'⟩ := List.pairwise_cons.mp hes
      cases fs with
      | nil => have := h k; simp [get?] at this
      | cons y fs =>
          obtain ⟨l, w⟩ := y
          obtain ⟨hl, hfs'⟩ := List.pairwise_cons.mp hfs
          -- The least key of each list is a key of the other, so the two are the same.
          have heq : k = l := by
            refine Decidable.byContradiction fun hne => ?_
            rcases Decidable.em (k < l) with hlt | hlt
            · have hnone : get? k fs = none :=
                get?_eq_none_of_forall_lt fun e he => String.lt_trans hlt (hl e he)
              have := h k
              simp [get?, Ne.symm hne, hnone] at this
            · have hlt := lt_of_not_lt_of_ne hlt hne
              have hnone : get? l es = none :=
                get?_eq_none_of_forall_lt fun e he => String.lt_trans hlt (hk e he)
              have := h l
              simp [get?, hne, hnone] at this
          subst heq
          have hv : v = w := by have := h k; simpa [get?] using this
          subst hv
          refine congrArg _ (ih hes' hfs' fun key => ?_)
          by_cases hkey : k = key
          · subst hkey
            rw [get?_eq_none_of_forall_lt hk, get?_eq_none_of_forall_lt hl]
          · have := h key; simpa [get?, hkey] using this

end Entries

/-- A finite map from names to values, listed in the order of the names. -/
structure Dict (α : Type) where
  /-- The entries, in key order. -/
  entries : List (String × α)
  /-- No key comes twice or out of order. -/
  sorted : Entries.Sorted entries

namespace Dict

variable {α β : Type}

/-- The dictionary without entries. -/
def empty : Dict α := ⟨[], .nil⟩

instance : EmptyCollection (Dict α) := ⟨empty⟩
instance : Inhabited (Dict α) := ⟨empty⟩

/-- Whether there is no entry. -/
def isEmpty (d : Dict α) : Bool := d.entries.isEmpty

/-- The value stored under `key`, if any. -/
def get? (d : Dict α) (key : String) : Option α := Entries.get? key d.entries

/-- Stores `value` under `key`, in place of what was stored there before. -/
def insert (d : Dict α) (key : String) (value : α) : Dict α :=
  ⟨Entries.insert key value d.entries, d.sorted.insert key value⟩

/-- The names that have a value, in order. -/
def keys (d : Dict α) : List String := d.entries.map Prod.fst

/-- Applies `f` to every value. -/
def map (f : α → β) (d : Dict α) : Dict β :=
  ⟨Entries.mapValues f d.entries, d.sorted.mapValues f⟩

/-- The dictionary of some bindings, of which the last for each name holds. -/
def ofList (bindings : List (String × α)) : Dict α :=
  bindings.foldl (fun d b => d.insert b.1 b.2) empty

@[simp] theorem get?_empty (key : String) : (empty : Dict α).get? key = none := rfl

theorem get?_insert (d : Dict α) (key key' : String) (value : α) :
    (d.insert key value).get? key' = if key = key' then some value else d.get? key' :=
  Entries.get?_insert key key' value d.entries

theorem get?_map (f : α → β) (d : Dict α) (key : String) :
    (d.map f).get? key = (d.get? key).map f :=
  Entries.get?_mapValues f key d.entries

/-- A dictionary is determined by its look-ups. -/
theorem ext_get? {d e : Dict α} (h : ∀ key, d.get? key = e.get? key) : d = e := by
  obtain ⟨ds, hds⟩ := d
  obtain ⟨es, hes⟩ := e
  have : ds = es := hds.ext hes h
  subst this
  rfl

/-- Storing the entries of a sorted list one after another puts them before what was there. -/
theorem get?_foldl_insert {es : List (String × α)} (h : Entries.Sorted es) (d : Dict α)
    (key : String) :
    (es.foldl (fun d e => d.insert e.1 e.2) d).get? key =
      (Entries.get? key es).or (d.get? key) := by
  induction es generalizing d with
  | nil => rfl
  | cons x es ih =>
      obtain ⟨k, v⟩ := x
      obtain ⟨hk, hes⟩ := List.pairwise_cons.mp h
      rw [List.foldl_cons, ih hes, get?_insert, Entries.get?]
      split
      next heq =>
        subst heq
        rw [Entries.get?_eq_none_of_forall_lt hk, Option.none_or, Option.some_or]
      next => rfl

/-- A dictionary is made up of its entries. -/
theorem ofList_entries (d : Dict α) : ofList d.entries = d :=
  ext_get? fun key => by rw [ofList, get?_foldl_insert d.sorted, get?_empty, Option.or_none, get?]

/-- All values of the dictionary have a property. -/
def All (P : α → Prop) (d : Dict α) : Prop := ∀ key value, d.get? key = some value → P value

theorem all_empty (P : α → Prop) : (empty : Dict α).All P := fun _ _ h => by cases h

theorem All.insert {P : α → Prop} {d : Dict α} (hd : d.All P) {value : α} (hvalue : P value)
    (key : String) : (d.insert key value).All P := by
  intro key' value' h
  rw [get?_insert] at h
  split at h
  next => exact Option.some.inj h ▸ hvalue
  next => exact hd key' value' h

theorem all_ofList {P : α → Prop} {bindings : List (String × α)} (h : ∀ b ∈ bindings, P b.2) :
    (ofList bindings).All P :=
  List.foldlRecOn bindings _ (all_empty P) fun _ hd b hb => hd.insert (h b hb) b.1

theorem All.of_mem {P : α → Prop} {d : Dict α} (hd : d.All P) {e : String × α}
    (he : e ∈ d.entries) : P e.2 :=
  hd e.1 e.2 ((Entries.get?_eq_some_iff d.sorted).mpr he)

instance [BEq α] : BEq (Dict α) := ⟨fun d e => d.entries == e.entries⟩

end Dict

end Abacus
