import Abacus.Proofs.SnapshotRoundTrip

/-!
# A snapshot keeps all but the last digits

`Snapshot.read?_write` says which environment a snapshot is read as.  Here the same is said
entry by entry, and in terms of the text alone: a restored environment has the names, slots
and output format of the one that was written, every integer is the same integer, and every
real is what its own numeral is read as, which is a real again.

The kinds of number are told apart by their spelling and nothing else.  That this is enough
rests on the printer, which writes a real with a point or an exponent even if it is whole.
-/

namespace Abacus

/-- The dictionaries have the same names, and what the two bind to a name is related. -/
structure Dict.Pointwise {α β : Type} (R : α → β → Prop) (d : Dict α) (e : Dict β) : Prop where
  keys_eq : d.keys = e.keys
  related : ∀ name, Option.Rel R (d.get? name) (e.get? name)

theorem Dict.Pointwise.exists_get? {α β : Type} {R : α → β → Prop} {d : Dict α} {e : Dict β}
    (h : d.Pointwise R e) {name : String} {a : α} (ha : d.get? name = some a) :
    ∃ b, e.get? name = some b ∧ R a b := by
  have hrelated := h.related name
  rw [ha] at hrelated
  cases hb : e.get? name with
  | none =>
    rw [hb] at hrelated
    cases hrelated
  | some b =>
    rw [hb] at hrelated
    cases hrelated with
    | some hab => exact ⟨b, rfl, hab⟩

theorem Dict.keys_map {α β : Type} (f : α → β) (d : Dict α) : (d.map f).keys = d.keys := by
  simp [keys, map, Entries.mapValues]

theorem Dict.pointwise_map {α β : Type} {R : α → β → Prop} {d : Dict α} {f : α → β}
    (h : d.All fun a => R a (f a)) : d.Pointwise R (d.map f) where
  keys_eq := (d.keys_map f).symm
  related name := by
    rw [get?_map]
    cases ha : d.get? name with
    | none => exact .none
    | some a => exact .some (h name a ha)

theorem Dict.map_eq_self {α : Type} {d : Dict α} {f : α → α} (h : d.All fun a => f a = a) :
    d.map f = d := by
  refine ext_get? fun name => ?_
  rw [get?_map]
  cases ha : d.get? name with
  | none => rfl
  | some a => rw [Option.map_some, h name a ha]

theorem Dict.All.imp {α : Type} {P Q : α → Prop} {d : Dict α} (h : d.All P)
    (himp : ∀ a, P a → Q a) : d.All Q :=
  fun name a ha => himp a (h name a ha)

namespace Number

/-- The number is an integer. -/
def IsInteger : Number → Prop
  | .int _ => True
  | .real _ => False

/-- How a number may come back: an integer as itself, and a real as the finite real that its
own numeral is read as. -/
def Restores : Number → Number → Prop
  | .int m, .int n => m = n
  | .real x, .real y =>
      y.isFinite ∧
        Json.Read.all Snapshot.value (String.ofList (Json.realLayout.numeral x).chars) =
          some (.real y)
  | .int _, .real _ => False
  | .real _, .int _ => False

/-- No integer becomes a real. -/
theorem Restores.eq_int {n : Int64} {b : Number} (h : Restores (.int n) b) : b = .int n := by
  cases b with
  | int m => exact congrArg Number.int h.symm
  | real y => exact h.elim

/-- No real becomes an integer. -/
theorem Restores.exists_eq_real {x : Double} {b : Number} (h : Restores (.real x) b) :
    ∃ y, b = .real y := by
  cases b with
  | int m => exact h.elim
  | real y => exact ⟨y, rfl⟩

theorem restores_reread {a : Number} (ha : a.IsFinite) : a.Restores a.reread := by
  cases a with
  | int n => rfl
  | real x =>
    have hx : x.isFinite := ha
    have hread := Snapshot.yields_value ha [] trivial
    have hjson : Snapshot.ofNumber (.real x) = .number (Json.realLayout.numeral x) := by
      rw [Snapshot.ofNumber, Json.numeralOf?, if_pos hx]
    rw [List.append_nil, hjson] at hread
    refine ⟨(Json.number?_numeral hx).2, ?_⟩
    have hvalue : Snapshot.value (Json.realLayout.numeral x).chars =
        some (.real (Json.reread x), []) := hread
    rw [Json.Read.all, String.toList_ofList, hvalue]
    rfl

theorem reread_eq_self {a : Number} (ha : a.IsInteger) : a.reread = a := by
  cases a with
  | int n => rfl
  | real x => exact ha.elim

end Number

namespace Snapshot

/-- **A snapshot keeps the whole format.**  The snapshot of every reachable environment can be
read.  The restored environment has the output format of the first, the same variables, the
same slots and in each slot the same variables; integers come back as themselves, and reals
as the finite reals that their numerals are read as.  Without any reals the restored
environment is the first one. -/
theorem exists_restored_pointwise {env : Environment} (h : env.Reachable) :
    ∃ restored, read? (write env) = some restored ∧
      restored.radix = env.radix ∧
      env.bindings.Pointwise Number.Restores restored.bindings ∧
      env.slots.Pointwise (Dict.Pointwise Number.Restores) restored.slots ∧
      (env.bindings.All Number.IsInteger → env.slots.All (Dict.All Number.IsInteger) →
        restored = env) := by
  have henv := h.isFinite
  have hdict : ∀ {d : Dict Number}, d.All Number.IsFinite →
      d.Pointwise Number.Restores (d.map Number.reread) := fun hd =>
    Dict.pointwise_map (hd.imp fun _ => Number.restores_reread)
  have hsame : ∀ {d : Dict Number}, d.All Number.IsInteger → d.map Number.reread = d := fun hd =>
    Dict.map_eq_self (hd.imp fun _ => Number.reread_eq_self)
  refine ⟨env.reread, read?_write henv, rfl, hdict henv.bindings, ?_, fun hb hs => ?_⟩
  · exact Dict.pointwise_map (henv.slots.imp fun _ => hdict)
  · unfold Environment.reread
    rw [hsame hb, Dict.map_eq_self (hs.imp fun _ => hsame)]

/-- A seed with names beyond ASCII, the least integer, and reals that look like integers. -/
def mixedSeed : String :=
  "\x7b\"variables\":\x7b\"größe\":-9223372036854775808,\"x\":3.0\x7d,\"output\":\"hex\"," ++
    "\"saved\":\x7b\"λ\":\x7b\"\":-0.0,\"big\":1e16\x7d\x7d\x7d"

/-- From this seed the least integer comes back as it was, and `3.0` comes back as a real. -/
theorem exists_restored_mixedSeed :
    (seeded mixedSeed).Reachable ∧
      ∃ restored, read? (write (seeded mixedSeed)) = some restored ∧
        restored.radix = .hex ∧
        restored.bindings.keys = ["größe", "x"] ∧
        restored.slots.keys = ["λ"] ∧
        restored.bindings.get? "größe" = some (.int (-9223372036854775808)) ∧
        ∃ y, restored.bindings.get? "x" = some (.real y) := by
  have hreachable : (seeded mixedSeed).Reachable := .seeded mixedSeed
  obtain ⟨restored, hread, hradix, hbindings, hslots, -⟩ := exists_restored_pointwise hreachable
  have hhex : (seeded mixedSeed).radix = .hex := by decide +kernel
  have hnames : (seeded mixedSeed).bindings.keys = ["größe", "x"] := by decide +kernel
  have hslot : (seeded mixedSeed).slots.keys = ["λ"] := by decide +kernel
  have hleast : (seeded mixedSeed).bindings.get? "größe" =
      some (.int (-9223372036854775808)) := by decide +kernel
  have hthree : (seeded mixedSeed).bindings.get? "x" = some (.real ⟨0x4008000000000000⟩) := by
    decide +kernel
  refine ⟨hreachable, restored, hread, hradix.trans hhex, hbindings.keys_eq.symm.trans hnames,
    hslots.keys_eq.symm.trans hslot, ?_, ?_⟩
  · obtain ⟨a, ha, hrestores⟩ := hbindings.exists_get? hleast
    rw [ha, hrestores.eq_int]
  · obtain ⟨a, ha, hrestores⟩ := hbindings.exists_get? hthree
    obtain ⟨y, rfl⟩ := hrestores.exists_eq_real
    exact ⟨y, ha⟩

end Snapshot

end Abacus
