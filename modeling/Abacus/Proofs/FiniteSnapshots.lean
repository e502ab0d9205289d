import Abacus.Proofs.ExactIntegers
import Abacus.Proofs.SaveSlots
import Abacus.Proofs.SnapshotRoundTrip

/-!
# Snapshots are written out in full

JSON has no numeral for an infinite or undefined real.  Where such a value had to be written, a
snapshot would say `null`, and a seed with `null` in the place of a value cannot be read: one bad
value would lose all variables and slots at the next start.

This does not happen.  Whatever the seed and whatever has been run, all values that are stored are
finite, and so are the values that the expressions of the next line go through, from the leaves
up.  The result shown is then the text of a finite value, and the snapshot has a numeral for every
value.
-/

namespace Abacus

namespace Json

mutual

/-- Whether `null` stands anywhere in a value. -/
def hasNull : Json → Bool
  | .null => true
  | .number _ => false
  | .string _ => false
  | .array elements => hasNullElements elements
  | .object members => hasNullMembers members

/-- Whether `null` stands anywhere in the elements of an array. -/
def hasNullElements : List Json → Bool
  | [] => false
  | value :: rest => hasNull value || hasNullElements rest

/-- Whether `null` stands anywhere in the members of an object. -/
def hasNullMembers : List (String × Json) → Bool
  | [] => false
  | (_, value) :: rest => hasNull value || hasNullMembers rest

end

theorem hasNullMembers_eq_false {members : List (String × Json)}
    (h : ∀ m ∈ members, m.2.hasNull = false) : hasNullMembers members = false := by
  induction members with
  | nil => rfl
  | cons m members ih =>
    obtain ⟨hm, hmembers⟩ := List.forall_mem_cons.mp h
    rw [hasNullMembers, hm, ih hmembers, Bool.or_self]

/-- An object made of the entries of a dictionary has `null` only inside its values. -/
theorem hasNull_object_mapValues {α : Type} {P : α → Prop} {d : Dict α} (hd : d.All P)
    {json : α → Json} (hjson : ∀ a, P a → (json a).hasNull = false) :
    (Json.object (Entries.mapValues json d.entries)).hasNull = false := by
  refine hasNullMembers_eq_false fun m hm => ?_
  obtain ⟨e, he, rfl⟩ := List.mem_map.mp hm
  exact hjson e.2 (hd.of_mem he)

end Json

namespace Snapshot

/-- There is a numeral for every finite value, and for no other. -/
theorem hasNull_ofNumber_eq_false_iff {a : Number} :
    (ofNumber a).hasNull = false ↔ a.IsFinite := by
  cases a with
  | int n => exact iff_of_true rfl trivial
  | real x =>
    show _ ↔ x.isFinite = true
    cases hx : x.isFinite <;> simp [ofNumber, Json.numeralOf?, hx, Json.hasNull]

example : (ofNumber (.real ⟨0x7ff0000000000000⟩)).hasNull = true := by decide +kernel

theorem hasNull_ofVariables {d : Dict Number} (hd : d.All Number.IsFinite) :
    (ofVariables d).hasNull = false :=
  Json.hasNull_object_mapValues hd fun _ => hasNull_ofNumber_eq_false_iff.mpr

theorem hasNull_toJson {env : Environment} (henv : env.IsFinite) :
    (toJson env).hasNull = false := by
  refine Json.hasNullMembers_eq_false fun m hm => ?_
  rcases List.mem_cons.mp hm with rfl | hm
  · exact hasNull_ofVariables henv.bindings
  · rcases List.mem_cons.mp hm with rfl | hm
    · rfl
    · obtain rfl := List.mem_singleton.mp hm
      exact Json.hasNull_object_mapValues henv.slots fun _ => hasNull_ofVariables

end Snapshot

/-- The expression that a statement evaluates, if it evaluates one. -/
def Statement.expr? : Statement → Option Expr
  | .expr e => some e
  | .assign _ e => some e
  | .clear | .save _ | .load _ | .output _ => none

theorem Statement.isFinite_of_expr? {s : Statement} (hs : s.IsFinite) {e : Expr}
    (h : s.expr? = some e) : e.IsFinite := by
  cases s <;> cases h <;> exact hs

/-- The parts of an expression have no literals of their own. -/
theorem Expr.IsFinite.of_mem_parts {e part : Expr} (he : e.IsFinite) (h : part ∈ e.parts) :
    part.IsFinite := by
  induction e with
  | number value =>
    obtain rfl := List.mem_singleton.mp h
    exact he
  | «variable» name =>
    obtain rfl := List.mem_singleton.mp h
    trivial
  | unary op operand ih =>
    rcases List.mem_cons.mp h with rfl | h
    · exact he
    · exact ih he h
  | binary op left right ihl ihr =>
    rcases List.mem_cons.mp h with rfl | h
    · exact he
    · rcases List.mem_append.mp h with h | h
      · exact ihl he.1 h
      · exact ihr he.2 h

namespace Environment

/-- The result of a line that evaluates an expression is the text of the value. -/
theorem result_of_expr? {ts : List Token} {s : Statement} (hs : Statement.parse ts = .ok s)
    {e : Expr} (he : s.expr? = some e) {env : Environment} {persist : Bool} {result : String}
    (h : (env.execute ts persist).2 = .ok result) :
    ∃ a, e.eval env.bindings = .ok a ∧ result = env.radix.render a := by
  rw [execute_of_parse hs] at h
  cases heval : e.eval env.bindings with
  | error fault => cases s <;> cases he <;> simp only [apply, heval] at h <;> cases h
  | ok a =>
    refine ⟨a, rfl, ?_⟩
    cases s <;> cases he <;> simp only [apply, heval] at h <;> exact (Except.ok.inj h).symm

theorem Reachable.executeAll {env : Environment} (h : env.Reachable)
    (runs : List (List Token × Bool)) : (env.executeAll runs).Reachable :=
  List.foldlRecOn runs _ h fun _ henv r _ => henv.execute r.1 r.2

/-- **No infinite or undefined value is ever stored, shown or written.**  Start from any seed and
run any token lists, to be kept or not.  Then all variables and all variables in slots have finite
values.  If further tokens spell a statement with an expression, all values that occur in
evaluating it are finite, and the result, if there is one, is the text of a finite value.  In the
snapshot no value is `null`. -/
theorem stores_only_finite (seed : String) (runs : List (List Token × Bool)) :
    let env := (Snapshot.seeded seed).executeAll runs
    (env.bindings.All Number.IsFinite ∧ env.slots.All (Dict.All Number.IsFinite)) ∧
      (∀ ts s e, Statement.parse ts = .ok s → s.expr? = some e →
        (∀ part ∈ e.parts, ∀ a, part.eval env.bindings = .ok a → a.IsFinite) ∧
          ∀ persist result, (env.execute ts persist).2 = .ok result →
            ∃ a : Number, a.IsFinite ∧ result = env.radix.render a) ∧
      (Snapshot.toJson env).hasNull = false := by
  intro env
  have henv : env.IsFinite := ((Reachable.seeded seed).executeAll runs).isFinite
  refine ⟨⟨henv.bindings, henv.slots⟩, fun ts s e hs he => ?_, Snapshot.hasNull_toJson henv⟩
  have hfinite : ∀ part ∈ e.parts, ∀ a, part.eval env.bindings = .ok a → a.IsFinite :=
    fun part hpart a ha =>
      Expr.isFinite_of_eval henv.bindings
        ((Statement.isFinite_of_expr? (Statement.isFinite_of_parse hs) he).of_mem_parts hpart) ha
  refine ⟨hfinite, fun persist result hresult => ?_⟩
  obtain ⟨a, ha, rfl⟩ := result_of_expr? hs he hresult
  exact ⟨a, hfinite e (Expr.mem_parts_self e) a ha, rfl⟩

end Environment

end Abacus
