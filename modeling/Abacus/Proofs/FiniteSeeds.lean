import Abacus.Calculator
import Abacus.Proofs.FiniteReals
import Abacus.Proofs.SessionRecord

/-!
# Reachable environments are finite

A session starts from a seed, which may be any text, and goes on by running token lists, of
which some persist.  The environments that this leads to are the *reachable* ones.

A seed has no way of spelling an infinite real: a numeral beyond the range of doubles is
not read at all.  Together with `Environment.IsFinite.execute` this makes all values in all
reachable environments finite (`Environment.Reachable.isFinite`), so a snapshot can write
each of them down.

## What a reader gives

The readers of seeds are put together from smaller ones.  `Gives P reader` says that
whatever the reader answers has the property `P`, and the lemmas carry this from the reader
of a value to the readers of objects and of lists.
-/

namespace Abacus

/-! ## Numerals -/

namespace Json

theorem isFinite_of_beq_zero {x : Float} (h : (x == 0) = true) : x.isFinite := by
  have hbeq : (x == 0) = x.toModel.unpack.beq (.zero .positive) := rfl
  have hfinite : x.isFinite = x.toModel.unpack.isFinite := rfl
  rw [hbeq] at h
  rw [hfinite]
  cases hx : x.toModel.unpack with
  | notANumber =>
    rw [hx] at h
    cases h
  | infinity s =>
    rw [hx] at h
    cases s <;> cases h
  | zero s => rfl
  | finite s m e => rfl

theorem isFinite_of_scale {x y : Float} {e : Int} (h : scale x e = some y) : y.isFinite := by
  induction x, e using scale.induct with
  | case1 x e he power z hz =>
    rw [scale, if_pos he] at h
    obtain rfl := Option.some.inj ((if_pos hz).symm.trans h)
    exact hz
  | case2 x e he power z hz =>
    rw [scale, if_pos he] at h
    cases (if_neg hz).symm.trans h
  | case3 x e he hx =>
    rw [scale, if_neg he, if_pos hx] at h
    obtain rfl := Option.some.inj h
    exact isFinite_of_beq_zero hx
  | case4 x e he hx hpos =>
    rw [scale, if_neg he, if_neg hx, if_pos hpos] at h
    cases h
  | case5 x e he hx hneg ih =>
    rw [scale, if_neg he, if_neg hx, if_neg hneg] at h
    exact ih h

theorem isFinite_of_magnitude? {n : Decimal.Numeral} {x : Float} (h : magnitude? n = some x) :
    x.isFinite := by
  unfold magnitude? at h
  simp only at h
  split at h
  · exact isFinite_of_scale h
  · split at h
    · split at h
      · obtain rfl := Option.some.inj h
        exact isFinite_of_beq_zero (by decide)
      · cases h
    · exact isFinite_of_scale h

/-- A numeral is read as an integer or as a finite real, if it is read at all. -/
theorem isFinite_of_number? {n : Decimal.Numeral} {a : Number} (h : number? n = some a) :
    a.IsFinite := by
  have hreal : ∀ {a : Number}, real? n = some a → a.IsFinite := by
    intro a ha
    obtain ⟨x, hx, rfl⟩ := Option.map_eq_some_iff.mp ha
    have hfinite := isFinite_of_magnitude? hx
    show (Double.ofFloat _).isFinite
    split
    · rw [Double.ofFloat_neg hfinite, Double.isFinite_negate, Double.isFinite_ofFloat, hfinite]
    · rw [Double.isFinite_ofFloat, hfinite]
  unfold number? at h
  split at h
  · simp only at h
    split at h
    · exact hreal h
    · split at h
      · obtain rfl := Option.some.inj h
        trivial
      · exact hreal h
  · exact hreal h

end Json

/-! ## Seeds -/

namespace Snapshot

open Json
open Text (Reader)

variable {α : Type} {P : α → Prop}

/-- Whatever the reader reads has the property. -/
def Gives (P : α → Prop) (reader : Reader α) : Prop :=
  ∀ cs x rest, reader cs = some (x, rest) → P x

theorem gives_anything {reader : Reader α} : Gives (fun _ => True) reader :=
  fun _ _ _ _ => trivial

theorem gives_map {β : Type} {Q : β → Prop} {reader : Reader β} (h : Gives Q reader) {f : β → α}
    (hf : ∀ y, Q y → P (f y)) : Gives P fun cs => (reader cs).map fun p => (f p.1, p.2) := by
  intro cs x rest hread
  obtain ⟨⟨y, cs'⟩, hy, heq⟩ := Option.map_eq_some_iff.mp hread
  obtain ⟨rfl, -⟩ := Prod.mk.inj heq
  exact hf y (h cs y cs' hy)

theorem gives_member {value : String → Reader α} (h : ∀ key, Gives P (value key)) :
    Gives (fun e : String × α => P e.2) (Read.member Read.string value) := by
  intro cs e rest hread
  simp only [Read.member, Option.bind_eq_bind, Option.bind_eq_some_iff, Option.pure_def] at hread
  obtain ⟨⟨key, cs₁⟩, -, ⟨u, cs₂⟩, -, ⟨x, cs₃⟩, hx, heq⟩ := hread
  obtain ⟨rfl, -⟩ := Prod.mk.inj (Option.some.inj heq)
  exact h key cs₂ x cs₃ hx

/-- Reading one thing and then others. -/
theorem forall_mem_of_cons {first : Reader α} {others : Reader (List α)} (hfirst : Gives P first)
    (hothers : Gives (fun xs => ∀ x ∈ xs, P x) others) {cs rest : List Char} {xs : List α}
    (hread : ((first cs).bind fun p => (others p.2).bind fun q => some (p.1 :: q.1, q.2)) =
      some (xs, rest)) : ∀ x ∈ xs, P x := by
  simp only [Option.bind_eq_some_iff] at hread
  obtain ⟨⟨x, cs₁⟩, hx, ⟨xs', cs₂⟩, hxs, heq⟩ := hread
  obtain ⟨rfl, -⟩ := Prod.mk.inj (Option.some.inj heq)
  exact List.forall_mem_cons.mpr ⟨hfirst cs x cs₁ hx, hothers cs₁ xs' cs₂ hxs⟩

theorem gives_more {entry : Reader α} (h : Gives P entry) (close : Char) (fuel : Nat) :
    Gives (fun xs => ∀ x ∈ xs, P x) (Read.more entry close fuel) := by
  induction fuel with
  | zero =>
    intro cs xs rest hread
    cases hread
  | succ fuel ih =>
    intro cs xs rest hread
    rw [Read.more] at hread
    split at hread
    next c cs' hspace =>
      split at hread
      · obtain ⟨rfl, -⟩ := Prod.mk.inj (Option.some.inj hread)
        exact List.forall_mem_nil _
      · split at hread
        · exact forall_mem_of_cons h ih hread
        · cases hread
    next => cases hread

theorem gives_entries {entry : Reader α} (h : Gives P entry) (close : Char) :
    Gives (fun xs => ∀ x ∈ xs, P x) (Read.entries entry close) := by
  intro cs xs rest hread
  rw [Read.entries] at hread
  split at hread
  next c cs' hspace =>
    split at hread
    · obtain ⟨rfl, -⟩ := Prod.mk.inj (Option.some.inj hread)
      exact List.forall_mem_nil _
    · have hothers : Gives (fun xs => ∀ x ∈ xs, P x) fun cs =>
          Read.more entry close (cs.length + 1) cs := fun cs => gives_more h close _ cs
      exact forall_mem_of_cons h hothers hread
  next => cases hread

theorem gives_object {value : String → Reader α} (h : ∀ key, Gives P (value key)) :
    Gives (fun es : List (String × α) => ∀ e ∈ es, P e.2) (Read.object value) := by
  intro cs es rest hread
  simp only [Read.object, Option.bind_eq_bind, Option.bind_eq_some_iff] at hread
  obtain ⟨⟨u, cs'⟩, -, hread⟩ := hread
  exact gives_entries (gives_member h) '\x7d' cs' es rest hread

/-- A reader that makes dictionaries of objects. -/
theorem gives_ofList {value : Reader α} (h : Gives P value) {reader : Reader (Dict α)}
    (hreader : ∀ cs, reader cs = (Read.object (fun _ => value) cs).bind fun p =>
      some (Dict.ofList p.1, p.2)) : Gives (Dict.All P) reader := by
  intro cs d rest hread
  rw [hreader] at hread
  obtain ⟨⟨es, cs'⟩, hes, heq⟩ := Option.bind_eq_some_iff.mp hread
  obtain ⟨rfl, -⟩ := Prod.mk.inj (Option.some.inj heq)
  exact Dict.all_ofList (gives_object (fun _ => h) cs es cs' hes)

theorem gives_value : Gives Number.IsFinite value := by
  intro cs a rest hread
  simp only [value, Option.bind_eq_bind, Option.bind_eq_some_iff, Option.pure_def] at hread
  obtain ⟨⟨n, cs'⟩, -, b, hb, heq⟩ := hread
  obtain ⟨rfl, -⟩ := Prod.mk.inj (Option.some.inj heq)
  exact isFinite_of_number? hb

theorem gives_bindings : Gives (Dict.All Number.IsFinite) bindings :=
  gives_ofList gives_value fun _ => rfl

theorem gives_saved : Gives (Dict.All (Dict.All Number.IsFinite)) saved :=
  gives_ofList gives_bindings fun _ => rfl

/-- All values in the part are finite. -/
def Part.IsFinite : Part → Prop
  | .bindings d => d.All Number.IsFinite
  | .saved d => d.All (Dict.All Number.IsFinite)
  | _ => True

theorem gives_part (key : String) : Gives Part.IsFinite (part key) := by
  intro cs x rest hread
  unfold part at hread
  split at hread
  · exact gives_map (f := Part.bindings) gives_bindings (fun _ hd => hd) cs x rest hread
  · exact gives_map (f := Part.output) gives_anything (fun _ _ => trivial) cs x rest hread
  · exact gives_map (f := Part.saved) gives_saved (fun _ hd => hd) cs x rest hread
  · exact gives_map (f := fun _ => Part.other) gives_anything (fun _ _ => trivial) cs x rest hread

theorem isFinite_withPart {env : Environment} (henv : env.IsFinite) {x : Part}
    (hx : x.IsFinite) : (withPart env x).IsFinite := by
  cases x with
  | bindings d => exact ⟨hx, henv.slots⟩
  | output r => exact ⟨henv.bindings, henv.slots⟩
  | saved d => exact ⟨henv.bindings, hx⟩
  | other => exact henv

theorem isFinite_default : ({} : Environment).IsFinite :=
  ⟨Dict.all_empty _, Dict.all_empty _⟩

theorem isFinite_assemble {parts : List Part} (h : ∀ x ∈ parts, x.IsFinite) :
    (assemble parts).IsFinite :=
  List.foldlRecOn parts withPart isFinite_default fun _ henv x hx => isFinite_withPart henv (h x hx)

theorem gives_members : Gives Environment.IsFinite members := by
  intro cs env rest hread
  simp only [members, Option.bind_eq_bind, Option.bind_eq_some_iff] at hread
  obtain ⟨⟨parts, cs'⟩, hparts, hread⟩ := hread
  have hfinite := gives_object gives_part cs parts cs' hparts
  split at hread
  · cases hread
  · obtain ⟨rfl, -⟩ := Prod.mk.inj (Option.some.inj hread)
    refine isFinite_assemble fun x hx => ?_
    obtain ⟨e, he, rfl⟩ := List.mem_map.mp hx
    exact hfinite e he

theorem gives_elementsAfter (keys : List String) :
    Gives (fun xs => ∀ x ∈ xs, Part.IsFinite x) (elementsAfter keys) := by
  induction keys with
  | nil =>
    intro cs xs rest hread
    obtain ⟨p, -, heq⟩ := Option.map_eq_some_iff.mp hread
    obtain ⟨rfl, -⟩ := Prod.mk.inj heq
    exact List.forall_mem_nil _
  | cons key keys ih =>
    intro cs xs rest hread
    rw [elementsAfter] at hread
    split at hread
    · obtain ⟨rfl, -⟩ := Prod.mk.inj (Option.some.inj hread)
      exact List.forall_mem_nil _
    · exact forall_mem_of_cons (gives_part key) ih hread
    · cases hread

theorem gives_elements : Gives Environment.IsFinite elements := by
  intro cs env rest hread
  simp only [elements, Option.bind_eq_bind, Option.bind_eq_some_iff] at hread
  obtain ⟨⟨u, cs'⟩, -, hread⟩ := hread
  split at hread
  · obtain ⟨rfl, -⟩ := Prod.mk.inj (Option.some.inj hread)
    exact isFinite_assemble (List.forall_mem_nil _)
  · simp only [Option.bind_eq_some_iff, Option.pure_def] at hread
    obtain ⟨⟨x, cs₁⟩, hx, ⟨xs, cs₂⟩, hxs, heq⟩ := hread
    obtain ⟨rfl, -⟩ := Prod.mk.inj (Option.some.inj heq)
    exact isFinite_assemble (List.forall_mem_cons.mpr
      ⟨gives_part _ _ x cs₁ hx, gives_elementsAfter _ cs₁ xs cs₂ hxs⟩)

theorem gives_environment : Gives Environment.IsFinite environment := by
  intro cs env rest hread
  unfold environment at hread
  split at hread
  · exact gives_elements _ env rest hread
  · exact gives_members _ env rest hread

/-- Whatever the seed, all values are finite at the start. -/
theorem isFinite_seeded (seed : String) : (seeded seed).IsFinite := by
  unfold seeded
  cases h : read? seed with
  | none => exact isFinite_default
  | some env =>
    rw [Option.getD_some]
    unfold read? at h
    split at h
    · obtain rfl := Option.some.inj h
      exact isFinite_default
    · unfold Read.all at h
      split at h
      next x rest hread =>
        split at h
        · obtain rfl := Option.some.inj h
          exact gives_environment _ x rest hread
        · cases h
      next => cases h

end Snapshot

/-! ## Environments -/

namespace Environment

/-- The environment comes about by running token lists, one after another, after a start
from a seed. -/
inductive Reachable : Environment → Prop where
  | seeded (seed : String) : Reachable (Snapshot.seeded seed)
  | execute {env : Environment} (ts : List Token) (persist : Bool) :
      Reachable env → Reachable (env.execute ts persist).1

/-- **In every reachable environment all values are finite.** -/
theorem Reachable.isFinite {env : Environment} (h : env.Reachable) : env.IsFinite := by
  induction h with
  | seeded seed => exact Snapshot.isFinite_seeded seed
  | execute ts persist _ ih => exact ih.execute ts persist

end Environment

/-- Whatever calls are made on a session, its environment is reachable. -/
theorem Calculator.reachable_run {η : Type} (seed : String) (calls : List (Session.Call η)) :
    (Session.run frontend engine (start seed) calls).1.environment.Reachable := by
  rw [Session.environment_run]
  exact List.foldlRecOn _ _ (.seeded seed) fun _ henv x _ => henv.execute x.1 x.2

end Abacus
