import Abacus.Proofs.FiniteSeeds
import Abacus.Proofs.JsonText
import Abacus.Proofs.RealsReadBack

/-!
# What a snapshot brings back

A snapshot of an environment whose values are finite is always read, and nothing in it is
lost or changed but reals.  Each real comes back as what the reader makes of its own
numeral (`Json.reread`); names, integers, the output format and the slots come back as they
were.  So the environment that is read is a function of the one that was written
(`Environment.reread`), and the rest of the module is about what this function does to the
variables.

## Parts

Reading a snapshot gives the parts of an environment, and writing one starts from the same
parts.  So the round trip is stated for parts, by the readers of seeds, and an environment
is put together from its three parts at the end.
-/

namespace Abacus

/-- What a number is after it has been written and read. -/
def Number.reread : Number → Number
  | .int n => .int n
  | .real x => .real (Json.reread x)

/-- What an environment is after it has been written and read. -/
def Environment.reread (env : Environment) : Environment :=
  { env with
    bindings := env.bindings.map Number.reread
    slots := env.slots.map (Dict.map Number.reread) }

namespace Snapshot

open Entries (mapValues)
open Json
open Text (Reader)

/-! ## Values and dictionaries -/

/-- A value as a snapshot writes it. -/
def ofNumber (a : Number) : Json :=
  match numeralOf? a with
  | some n => .number n
  | none => .null

theorem yields_value {a : Number} (ha : a.IsFinite) :
    Yields value (compact (ofNumber a)) a.reread := by
  intro rest hrest
  cases a with
  | int w =>
    have hnumeral := yields_numeral (wellFormed_ofInt w.toInt) rest hrest
    show value ((Decimal.Numeral.ofInt w.toInt).chars ++ rest) = some (.int w, rest)
    simp only [value, hnumeral, number?_ofInt, Option.bind_eq_bind, Option.bind_some,
      Option.pure_def]
  | real x =>
    have hx : x.isFinite := ha
    have hnumeral := yields_numeral (writes_numeral hx).formed rest hrest
    have hjson : ofNumber (.real x) = .number (realLayout.numeral x) := by
      rw [ofNumber, numeralOf?, if_pos hx]
    rw [hjson]
    show value ((realLayout.numeral x).chars ++ rest) = some (.real (Json.reread x), rest)
    simp only [value, hnumeral, (number?_numeral hx).1, Option.bind_eq_bind, Option.bind_some,
      Option.pure_def]

/-- A dictionary is read as it was written, up to what becomes of its values. -/
theorem yields_dict {α β : Type} {value : Reader α} {json : β → Json} {read : β → α} {d : Dict β}
    (h : YieldsEach (fun _ => value) json read d.entries) {reader : Reader (Dict α)}
    (hreader : ∀ cs, reader cs = (Read.object (fun _ => value) cs).bind fun p =>
      some (Dict.ofList p.1, p.2)) :
    Yields reader (compact (.object (mapValues json d.entries))) (d.map read) := by
  intro rest hrest
  have hobject := yields_object h rest hrest
  have hdict : Dict.ofList (mapValues read d.entries) = d.map read :=
    Dict.ofList_entries (d.map read)
  rw [hreader, hobject, Option.bind_some, hdict]

theorem yields_bindings {d : Dict Number} (hd : d.All Number.IsFinite) :
    Yields bindings (compact (ofVariables d)) (d.map Number.reread) :=
  yields_dict (fun _ he => yields_value (hd.of_mem he)) fun _ => rfl

theorem yields_saved {d : Dict (Dict Number)} (hd : d.All (Dict.All Number.IsFinite)) :
    Yields saved (compact (.object (mapValues ofVariables d.entries)))
      (d.map (Dict.map Number.reread)) :=
  yields_dict (fun _ he => yields_bindings (hd.of_mem he)) fun _ => rfl

theorem yields_output (radix : Radix) :
    Yields output (compact (.string radix.name)) radix := by
  intro rest _
  have hname : radixName (quote radix.name ++ rest) = some (radix, rest) := by
    simp only [radixName, string_quote, Radix.ofName?_name, Option.bind_eq_bind,
      Option.bind_some, Option.pure_def]
  have hspace : Read.skipSpace (quote radix.name ++ rest) = quote radix.name ++ rest := by
    rw [quote, List.cons_append, Read.skipSpace, List.dropWhile_cons_of_neg (by decide)]
  rw [compact, output, hspace]
  exact hname

/-! ## Parts and environments -/

/-- A part as a snapshot writes it. -/
def Part.json : Part → Json
  | .bindings d => ofVariables d
  | .output r => .string r.name
  | .saved d => .object (mapValues ofVariables d.entries)
  | .other => .null

/-- What a part is after it has been written and read. -/
def Part.reread : Part → Part
  | .bindings d => .bindings (d.map Number.reread)
  | .output r => .output r
  | .saved d => .saved (d.map (Dict.map Number.reread))
  | .other => .other

/-- The parts of an environment under their keys. -/
def parts (env : Environment) : List (String × Part) :=
  [("variables", .bindings env.bindings), ("output", .output env.radix),
    ("saved", .saved env.slots)]

theorem toJson_eq (env : Environment) :
    toJson env = .object (mapValues Part.json (parts env)) := rfl

theorem yieldsEach_parts {env : Environment} (henv : env.IsFinite) :
    YieldsEach part Part.json Part.reread (parts env) := by
  intro e he rest hrest
  rcases List.mem_cons.mp he with rfl | he
  · show (bindings _).map _ = _
    rw [Part.json, yields_bindings henv.bindings rest hrest]
    rfl
  · rcases List.mem_cons.mp he with rfl | he
    · show (output _).map _ = _
      rw [Part.json, yields_output env.radix rest hrest]
      rfl
    · obtain rfl := List.mem_singleton.mp he
      show (saved _).map _ = _
      rw [Part.json, yields_saved henv.slots rest hrest]
      rfl

theorem yields_members {env : Environment} (henv : env.IsFinite) :
    Yields members (compact (toJson env)) env.reread := by
  intro rest hrest
  have hobject := yields_object (yieldsEach_parts henv) rest hrest
  have honce : hasRepeated (mapValues Part.reread (parts env)) = false := by
    simp [hasRepeated, parts]
  rw [toJson_eq, members, hobject]
  simp only [Option.bind_eq_bind, Option.bind_some, honce, Option.pure_def]
  rfl

/-- **A snapshot is read, and only reals can differ.** -/
theorem read?_write {env : Environment} (henv : env.IsFinite) :
    read? (write env) = some env.reread := by
  obtain ⟨text, htext⟩ : ∃ text, compact (toJson env) = '\x7b' :: text := by
    rw [toJson_eq, compact]
    exact ⟨_, rfl⟩
  have hlist : (write env).toList = '\x7b' :: text := by
    rw [write, Json.print, String.toList_ofList, htext]
  have hblank : Text.isBlankText (write env) = false := by
    rw [Text.isBlankText, hlist, List.all_cons]
    rfl
  have hread : environment ('\x7b' :: text) = some (env.reread, []) := by
    have hmembers := yields_members henv [] trivial
    rw [List.append_nil, htext] at hmembers
    rw [environment, Read.skipSpace, List.dropWhile_cons_of_neg (by decide)]
    exact hmembers
  rw [read?, hblank, if_neg Bool.false_ne_true, Read.all, hlist, hread]
  rfl

/-! ## Reals -/

/-- Every real in the dictionary is finite, and in the restored one its variable is bound to
a finite real of the same sign, which has the same bits exactly if the real survives, and
always if its numeral is read without rounding. -/
def RestoresReals (d restored : Dict Number) : Prop :=
  ∀ name x, d.get? name = some (.real x) →
    x.isFinite ∧ ∃ y, restored.get? name = some (.real y) ∧ y.isFinite ∧
      y.isNegative = x.isNegative ∧ (y.bits = x.bits ↔ Survives x) ∧
      (ReadsExactly x → y.bits = x.bits)

theorem restoresReals_reread {d : Dict Number} (hd : d.All Number.IsFinite) :
    RestoresReals d (d.map Number.reread) := by
  intro name x hget
  have hx : x.isFinite := hd name (.real x) hget
  have hbits : (Json.reread x).bits = x.bits ↔ Survives x := by
    rw [← reread_eq_self_iff]
    exact ⟨fun h => congrArg Double.mk h, fun h => congrArg Double.bits h⟩
  refine ⟨hx, Json.reread x, ?_, (number?_numeral hx).2, isNegative_reread hx, hbits, ?_⟩
  · rw [Dict.get?_map, hget]
    rfl
  · exact fun h => hbits.mpr (survives_of_readsExactly hx h)

/-- **Which reals a restart keeps.**  The snapshot of every reachable environment can be
read, and in what is read every variable bound to a real, now or in a slot, is bound to a
finite real of the same sign, which has the same bits exactly if the real survives the
calculation by which its shortest decimal is read. -/
theorem exists_restored_reals {env : Environment} (h : env.Reachable) :
    ∃ restored, read? (write env) = some restored ∧
      RestoresReals env.bindings restored.bindings ∧
      ∀ slot d, env.slots.get? slot = some d →
        ∃ d', restored.slots.get? slot = some d' ∧ RestoresReals d d' := by
  have henv := h.isFinite
  refine ⟨env.reread, read?_write henv, restoresReals_reread henv.bindings, ?_⟩
  intro slot d hslot
  refine ⟨d.map Number.reread, ?_, restoresReals_reread (henv.slots slot d hslot)⟩
  show (env.slots.map (Dict.map Number.reread)).get? slot = some (d.map Number.reread)
  rw [Dict.get?_map, hslot]
  rfl

/-- The tokens of `x = 1 / 11`. -/
def eleventh : List Token :=
  [⟨.variable, 0, "x"⟩, ⟨.assign, 2, "="⟩, ⟨.number, 4, "1"⟩, ⟨.div, 6, "/"⟩, ⟨.number, 8, "11"⟩]

/-- One eleventh does not survive: a restart makes it another double. -/
theorem exists_restored_eleventh :
    ((seeded "").execute eleventh true).1.Reachable ∧
      ((seeded "").execute eleventh true).1.bindings.get? "x" =
        some (.real ⟨0x3fb745d1745d1746⟩) ∧
      ∃ restored, read? (write ((seeded "").execute eleventh true).1) = some restored ∧
        ∃ y, restored.bindings.get? "x" = some (.real y) ∧ y.bits ≠ 0x3fb745d1745d1746 := by
  have hreachable : ((seeded "").execute eleventh true).1.Reachable :=
    .execute eleventh true (.seeded "")
  have hget : ((seeded "").execute eleventh true).1.bindings.get? "x" =
      some (.real ⟨0x3fb745d1745d1746⟩) := by decide +kernel
  have hlost : ¬ Survives ⟨0x3fb745d1745d1746⟩ := by decide +kernel
  obtain ⟨restored, hread, hreals, -⟩ := exists_restored_reals hreachable
  obtain ⟨-, y, hy, -, -, hbits, -⟩ := hreals "x" _ hget
  exact ⟨hreachable, hget, restored, hread, y, hy, mt hbits.mp hlost⟩

end Snapshot

end Abacus
