import Abacus.Token.Lexer
import Abacus.Snapshot
import Abacus.Proofs.StatementParsing

/-!
# Slots keep what was saved

A slot holds the variables as they were when somebody saved them under its name, and it holds
them until somebody saves under this name again.  In between, anything may happen: variables are
assigned and cleared, other slots are saved and loaded, lines fail, and lines are previewed,
among them lines that would save under this very name.

The one statement that changes a slot is the one that saves under its name, and it takes the
variables of that moment and no others (`get?_slots_apply`).  What a line does to a slot follows
from that, since a preview and a failing line keep nothing; and a whole run that does not save
under the name leaves the slot alone (`get?_slots_executeAll`).
-/

namespace Abacus.Environment

/-- The environment after running token lists one after another, each to be kept or not. -/
def executeAll (env : Environment) (runs : List (List Token × Bool)) : Environment :=
  runs.foldl (fun env r => (env.execute r.1 r.2).1) env

/-- The tokens save under this name, and the effect is to be kept. -/
def Saves (slot : String) (r : List Token × Bool) : Prop :=
  r.2 = true ∧ Statement.parse r.1 = .ok (.save slot)

instance (slot : String) (r : List Token × Bool) : Decidable (Saves slot r) :=
  decidable_of_iff (r.2 = true ∧ (Statement.parse r.1).toOption = some (.save slot))
    (and_congr_right' Statement.toOption_eq_some_iff)

/-! ## One line -/

/-- Executing a token list is applying the statement that it spells. -/
theorem execute_of_parse {ts : List Token} {s : Statement} (h : Statement.parse ts = .ok s)
    (env : Environment) (persist : Bool) :
    env.execute ts persist =
      match env.apply s with
      | .ok (after, result) => (if persist then after else env, .ok result)
      | .error e => (env, .error e) := by
  rcases happly : env.apply s with e | ⟨after, result⟩ <;>
    simp only [execute, run, h, happly]

/-- A slot changes only when it is saved under, and then it takes the variables. -/
theorem get?_slots_apply {env after : Environment} {s : Statement} {result : String}
    (h : env.apply s = .ok (after, result)) (slot : String) :
    after.slots.get? slot =
      if s = .save slot then some env.bindings else env.slots.get? slot := by
  cases s <;> simp only [apply] at h
  case expr e =>
    split at h <;> cases h
    rfl
  case assign name e =>
    split at h <;> cases h
    rfl
  case load name =>
    split at h <;> cases h
    rfl
  case clear | output =>
    cases h
    rfl
  case save name =>
    cases h
    simp only [Dict.get?_insert, Statement.save.injEq]

/-- A line that does not save under the name, or is only previewed, leaves the slot alone. -/
theorem get?_slots_execute {slot : String} {ts : List Token} {persist : Bool}
    (h : ¬ Saves slot (ts, persist)) (env : Environment) :
    (env.execute ts persist).1.slots.get? slot = env.slots.get? slot := by
  cases persist with
  | false => rw [execute_preview]
  | true =>
    cases hs : Statement.parse ts with
    | error e => rw [execute, run, hs]
    | ok s =>
      rw [execute_of_parse hs]
      cases happly : env.apply s with
      | error e => rfl
      | ok x =>
        have hne : s ≠ .save slot := fun heq => h ⟨rfl, heq ▸ hs⟩
        exact (get?_slots_apply happly slot).trans (if_neg hne)

/-- Saving succeeds, and all it does is to store the variables. -/
theorem execute_save {ts : List Token} {slot : String} (h : Statement.parse ts = .ok (.save slot))
    (env : Environment) :
    env.execute ts true =
      ({ env with slots := env.slots.insert slot env.bindings }, .ok s!"saved {slot}") := by
  rw [execute_of_parse h]
  rfl

/-- Loading puts the variables of the slot in the place of the present ones. -/
theorem execute_load {ts : List Token} {slot : String} (h : Statement.parse ts = .ok (.load slot))
    {env : Environment} {bindings : Dict Number} (hslot : env.slots.get? slot = some bindings) :
    env.execute ts true = ({ env with bindings }, .ok s!"loaded {slot}") := by
  rw [execute_of_parse h, apply, hslot]
  rfl

/-- Loading under a name without a slot is an error. -/
theorem execute_load_of_none {ts : List Token} {slot : String}
    (h : Statement.parse ts = .ok (.load slot)) {env : Environment}
    (hslot : env.slots.get? slot = none) (persist : Bool) :
    env.execute ts persist = (env, .error (.unknownSlot slot)) := by
  rw [execute_of_parse h, apply, hslot]

/-! ## A whole run -/

/-- The run lemma: what is not saved under the name leaves the slot alone. -/
theorem get?_slots_executeAll {slot : String} {runs : List (List Token × Bool)}
    (h : ∀ r ∈ runs, ¬ Saves slot r) (env : Environment) :
    (env.executeAll runs).slots.get? slot = env.slots.get? slot := by
  induction runs generalizing env with
  | nil => rfl
  | cons r runs ih =>
    obtain ⟨hr, hruns⟩ := List.forall_mem_cons.mp h
    exact (ih hruns (env.execute r.1 r.2).1).trans (get?_slots_execute hr env)

/-- **Slots are faithful and private.**

* After the variables have been saved under a name, and after any further lines of which none
  saves under this name and is kept, loading the name succeeds.  It makes the variables what they
  were when they were saved, and changes nothing else.
* A line that loads and is kept either changes the variables and nothing else, or it fails and
  changes nothing.
* Clearing empties the variables and changes nothing else.
* A name that the seed has no slot for, and under which no line has saved for keeps, cannot be
  loaded, and the attempt changes nothing. -/
theorem load_brings_back (slot : String) :
    (∀ (env : Environment) (saving loading : List Token) (runs : List (List Token × Bool)),
      Statement.parse saving = .ok (.save slot) → Statement.parse loading = .ok (.load slot) →
      (∀ r ∈ runs, ¬ Saves slot r) →
      let saved := env.execute saving true
      let later := saved.1.executeAll runs
      saved.2 = .ok s!"saved {slot}" ∧
        later.execute loading true =
          ({ later with bindings := saved.1.bindings }, .ok s!"loaded {slot}")) ∧
    (∀ (env : Environment) (loading : List Token),
      Statement.parse loading = .ok (.load slot) →
      (∃ bindings, env.slots.get? slot = some bindings ∧
        env.execute loading true = ({ env with bindings }, .ok s!"loaded {slot}")) ∨
      env.slots.get? slot = none ∧ env.execute loading true = (env, .error (.unknownSlot slot))) ∧
    (∀ (env : Environment) (clearing : List Token), Statement.parse clearing = .ok .clear →
      env.execute clearing true = ({ env with bindings := .empty }, .ok "cleared")) ∧
    ∀ (seed : String) (runs : List (List Token × Bool)) (loading : List Token) (persist : Bool),
      (Snapshot.seeded seed).slots.get? slot = none → (∀ r ∈ runs, ¬ Saves slot r) →
      Statement.parse loading = .ok (.load slot) →
      let reached := (Snapshot.seeded seed).executeAll runs
      reached.execute loading persist = (reached, .error (.unknownSlot slot)) := by
  refine ⟨fun env saving loading runs hsaving hloading hruns => ?_, fun env loading hloading => ?_,
    fun env clearing hclearing => ?_, fun seed runs loading persist hseed hruns hloading => ?_⟩
  · intro saved later
    have hsaved := execute_save hsaving env
    have hslot : later.slots.get? slot = some saved.1.bindings := by
      refine (get?_slots_executeAll hruns saved.1).trans ?_
      simp only [saved, hsaved, Dict.get?_insert, if_true]
    exact ⟨by simp only [saved, hsaved], execute_load hloading hslot⟩
  · cases hslot : env.slots.get? slot with
    | none => exact .inr ⟨rfl, execute_load_of_none hloading hslot true⟩
    | some bindings => exact .inl ⟨bindings, rfl, execute_load hloading hslot⟩
  · rw [execute_of_parse hclearing]
    rfl
  · intro reached
    have hslot : reached.slots.get? slot = none :=
      (get?_slots_executeAll hruns (Snapshot.seeded seed)).trans hseed
    exact execute_load_of_none hloading hslot persist

section Examples

/-- The tokens of a line. -/
def tokens (line : String) : List Token := (Token.tokenize line).toOption.getD []

/-- Lines between saving and loading: another slot is saved, cleared variables are brought back
from it, saving under the name itself is only previewed, a line fails, the format changes. -/
def interlude : List (List Token × Bool) :=
  [(tokens "x = 2", true), (tokens "save(b)", true), (tokens "clear", true),
   (tokens "save(a)", false), (tokens "load(b)", true), (tokens "y = x // 0", true),
   (tokens "output(hex)", true)]

/-- After the interlude there is `x = 2` and no slot `a` from the seed, but what was saved as `a`
comes back. -/
theorem load_brings_back_interlude :
    let saved := ((Snapshot.seeded "").execute (tokens "x = 1") true).1.execute
      (tokens "save(a)") true
    let later := saved.1.executeAll interlude
    later.bindings.get? "x" = some (.int 2) ∧ later.radix = .hex ∧
      (later.execute (tokens "load(a)") true).1.bindings.get? "x" = some (.int 1) := by
  intro saved later
  obtain ⟨-, hload⟩ := (load_brings_back "a").1
    ((Snapshot.seeded "").execute (tokens "x = 1") true).1 (tokens "save(a)") (tokens "load(a)")
    interlude
    (Statement.toOption_eq_some_iff.mp (by decide +kernel))
    (Statement.toOption_eq_some_iff.mp (by decide +kernel)) (by decide +kernel)
  refine ⟨by decide +kernel, by decide +kernel, ?_⟩
  rw [hload]
  decide +kernel

end Examples

end Abacus.Environment
