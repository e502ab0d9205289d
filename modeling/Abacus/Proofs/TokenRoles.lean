import Abacus.Proofs.FiniteSeeds
import Abacus.Proofs.Layout
import Abacus.Proofs.SaveSlots
import Abacus.Proofs.SavingLines
import Abacus.Proofs.SnapshotRoundTrip

/-!
# The roles of tokens tell the statement

A session and its environment look at a line in two ways.  The session sees a list of tokens, each
with a role, and asks of them whether the first one clears and whether any one saves.  The
environment runs the statement that the tokens spell.  Every statement that is not about clearing or
saving has only plain tokens, because no expression contains any other at any depth; and a statement
that clears or saves has one such token, in front (`Spells.roles`).

So the two never disagree.  A line that is kept empties the history if it has cleared the variables,
and it triggers the hook if it has filled a slot, and in no other case.  What the hook is given
reads back as an environment with the slot filled by the variables of that moment.
-/

namespace Abacus

open Grammar (Derives Spells)

namespace Calculator

theorem role_eq_clear_iff (t : Token) : role t = .clear ↔ t.kind = .clear := by
  unfold role
  split <;> simp_all

theorem role_of_kind {t : Token} {k : Token.Kind} (h : t.kind = k) (hk : k ≠ .clear ∧ k ≠ .save) :
    role t = .plain := by
  unfold role
  split
  next hclear => exact absurd (h.symm.trans hclear) hk.1
  next hsave => exact absurd (h.symm.trans hsave) hk.2
  next => rfl

/-- How the roles of some tokens tell which statement they are. -/
structure Roles (ts : List Token) (s : Statement) : Prop where
  /-- The first one clears in the statement that clears, and in no other. -/
  clear_iff : ts.head?.map role = some .clear ↔ s = .clear
  /-- None behind it does. -/
  tail_clear : ∀ t ∈ ts.tail, role t ≠ .clear
  /-- One saves in a statement that saves, and in no other. -/
  save_iff : (∃ t ∈ ts, role t = .save) ↔ ∃ slot, s = .save slot
  /-- That one is the first, and it is the only one. -/
  of_save : ∀ slot, s = .save slot →
    ts.head?.map role = some .save ∧ ∀ t ∈ ts.tail, role t ≠ .save
  /-- The slot is the one that is named in the argument. -/
  slot : ∀ slot, s = .save slot → ∃ pos, ts[2]? = some ⟨.variable, pos, slot⟩

namespace Roles

/-- Tokens without a role tell that the statement neither clears nor saves. -/
theorem of_plain {ts : List Token} {s : Statement} (hplain : ∀ t ∈ ts, role t = .plain)
    (hclear : s ≠ .clear) (hsave : ∀ slot, s ≠ .save slot) : Roles ts s where
  clear_iff := by
    refine iff_of_false (fun h => ?_) hclear
    obtain ⟨t, ht, hrole⟩ := Option.map_eq_some_iff.mp h
    rw [hplain t (List.mem_of_mem_head? ht)] at hrole
    cases hrole
  tail_clear t ht := by
    rw [hplain t (List.mem_of_mem_tail ht)]
    decide
  save_iff := by
    refine iff_of_false ?_ fun ⟨slot, h⟩ => hsave slot h
    rintro ⟨t, ht, hrole⟩
    rw [hplain t ht] at hrole
    cases hrole
  of_save slot h := absurd h (hsave slot)
  slot slot h := absurd h (hsave slot)

/-- A plain token behind a statement makes no difference. -/
theorem concat {u : Token} {ts : List Token} {s : Statement} (h : Roles (u :: ts) s) {t : Token}
    (ht : role t = .plain) : Roles (u :: ts ++ [t]) s where
  clear_iff := h.clear_iff
  tail_clear v hv := by
    rcases List.mem_append.mp hv with hv | hv
    · exact h.tail_clear v hv
    · rw [List.mem_singleton.mp hv, ht]
      decide
  save_iff := by
    rw [← h.save_iff]
    simp [ht]
  of_save slot hs := by
    obtain ⟨hfirst, htail⟩ := h.of_save slot hs
    refine ⟨hfirst, fun v hv => ?_⟩
    rcases List.mem_append.mp hv with hv | hv
    · exact htail v hv
    · rw [List.mem_singleton.mp hv, ht]
      decide
  slot slot hs := by
    obtain ⟨pos, hpos⟩ := h.slot slot hs
    refine ⟨pos, ?_⟩
    rw [List.getElem?_append_left (List.getElem?_eq_some_iff.mp hpos).1, hpos]

end Roles

/-- An expression has plain tokens only, however deep they stand. -/
theorem role_of_derives {c : Grammar.Category} {ts : List Token} {e : Expr} (h : Derives c ts e) :
    ∀ t ∈ ts, role t = .plain := by
  intro t ht
  have hforeign := h.not_mem_foreign t ht
  refine role_of_kind rfl ⟨fun hk => ?_, fun hk => ?_⟩
  · exact absurd (by rw [hk]; decide) hforeign
  · exact absurd (by rw [hk]; decide) hforeign

/-- **The roles of the tokens of a statement tell which one it is.** -/
theorem roles_of_spells {ts : List Token} {s : Statement} (h : Spells ts s) : Roles ts s := by
  cases h with
  | clear ht =>
    have hrole := (role_eq_clear_iff _).mpr ht
    constructor <;> simp [hrole]
  | clearArgument ht hl hr =>
    have hrole := (role_eq_clear_iff _).mpr ht
    have hopen := role_of_kind hl (by decide)
    have hclose := role_of_kind hr (by decide)
    constructor <;> simp [hrole, hopen, hclose]
  | @save t l v r ht hl hv hr =>
    have hrole := (role_eq_save_iff _).mpr ht
    have hopen := role_of_kind hl (by decide)
    have hname := role_of_kind hv (by decide)
    have hclose := role_of_kind hr (by decide)
    constructor
    case slot =>
      rintro slot hs
      obtain rfl := Statement.save.inj hs
      exact ⟨v.pos, by rw [← hv]; rfl⟩
    all_goals simp [hrole, hopen, hname, hclose]
  | load ht hl hv hr =>
    refine .of_plain ?_ nofun nofun
    simp [role_of_kind ht (by decide), role_of_kind hl (by decide), role_of_kind hv (by decide),
      role_of_kind hr (by decide)]
  | output ht hl hv _ hr =>
    refine .of_plain ?_ nofun nofun
    simp [role_of_kind ht (by decide), role_of_kind hl (by decide), role_of_kind hv (by decide),
      role_of_kind hr (by decide)]
  | assign hv ht he =>
    refine .of_plain ?_ nofun nofun
    exact List.forall_mem_cons.mpr ⟨role_of_kind hv (by decide),
      List.forall_mem_cons.mpr ⟨role_of_kind ht (by decide), role_of_derives he⟩⟩
  | expr he => exact .of_plain (role_of_derives he) nofun nofun

/-- So do those of a line, up to the token that ends it. -/
theorem roles_of_tokenize {text : String} {ts : List Token} {s : Statement}
    (htokens : Token.tokenize text = .ok ts) (hs : Statement.parse ts = .ok s) : Roles ts s := by
  obtain ⟨us, stop, rfl, hspells⟩ := exists_spells htokens hs
  cases us with
  | nil => cases hs
  | cons u us => exact (roles_of_spells hspells).concat rfl

/-! ## A line that is kept -/

variable {η : Type}

/-- A line that succeeds and is kept is a statement that succeeds. -/
theorem exists_apply_of_ok {s : Calculator η} {input : String}
    (h : (s.exec input true).ok = true) :
    ∃ ts st after result, frontend.parse input = .ok ts ∧ Token.tokenize input = .ok ts ∧
      Statement.parse ts = .ok st ∧ s.environment.apply st = .ok (after, result) := by
  obtain ⟨st, hst⟩ := exists_statement?_of_ok h
  obtain ⟨ts, hparse, htokens, hs⟩ := exists_tokens hst
  cases happly : s.environment.apply st with
  | error e =>
    rw [exec_of_error hst happly] at h
    cases h
  | ok x => exact ⟨ts, st, x.1, x.2, hparse, htokens, hs, happly⟩

theorem clears_iff {ts : List Token} {st : Statement} (h : Roles ts st) :
    Session.clears frontend ts = true ↔ st = .clear := by
  rw [← h.clear_iff]
  exact beq_iff_eq

/-- A slot that has just been filled reads back with the variables of the snapshot. -/
theorem exists_restored_of_save {env after : Environment} (henv : env.IsFinite)
    {slot result : String} (h : env.apply (.save slot) = .ok (after, result)) :
    after.bindings = env.bindings ∧ after.slots.get? slot = some after.bindings ∧
      ∃ restored, Snapshot.read? (Snapshot.write after) = some restored ∧
        restored.bindings = after.bindings.map Number.reread ∧
        restored.slots.get? slot = some restored.bindings := by
  have hfinite : after.IsFinite := henv.apply (s := .save slot) trivial h
  have hslot := Environment.get?_slots_apply h slot
  rw [if_pos rfl] at hslot
  obtain ⟨rfl, -⟩ := Prod.mk.inj (Except.ok.inj h)
  refine ⟨rfl, hslot, _, Snapshot.read?_write hfinite, rfl, ?_⟩
  rw [Environment.reread, Dict.get?_map, hslot]
  rfl

/-- **The two views of a line coincide.**  The roles of the tokens of any line that is a statement
tell which statement it is.  Therefore a line that succeeds and is kept, in any session, empties the
history exactly if it has cleared the variables, and makes the hook due exactly if it has filled a
slot.  The snapshot is that of the environment after the line, and in it the slot holds the
variables. -/
theorem roles_tell_statements :
    (∀ text ts st, Token.tokenize text = .ok ts → Statement.parse ts = .ok st → Roles ts st) ∧
      ∀ seed (calls : List (Session.Call η)) input,
        let s : Calculator η := (Session.run frontend engine (start seed) calls).1
        let outcome := s.exec input true
        outcome.ok = true → ∃ ts st after result,
          Token.tokenize input = .ok ts ∧ Statement.parse ts = .ok st ∧
          s.environment.apply st = .ok (after, result) ∧ outcome.session.environment = after ∧
          (outcome.session.record.history = [] ↔ st = .clear) ∧
          (∀ hook text, outcome.saved = some (hook, text) ↔
            s.hook = some hook ∧ (∃ slot, st = .save slot) ∧ text = Snapshot.write after) ∧
          ∀ slot, st = .save slot →
            after.bindings = s.environment.bindings ∧
            after.slots.get? slot = some after.bindings ∧
            ∃ restored, Snapshot.read? (Snapshot.write after) = some restored ∧
              restored.bindings = after.bindings.map Number.reread ∧
              restored.slots.get? slot = some restored.bindings := by
  refine ⟨fun text ts st => roles_of_tokenize, ?_⟩
  intro seed calls input s outcome hok
  obtain ⟨ts, st, after, result, hparse, htokens, hst, happly⟩ := exists_apply_of_ok hok
  have hexec := exec_eq_of_apply hparse hst happly
  have hroles := roles_of_tokenize htokens hst
  refine ⟨ts, st, after, result, htokens, hst, happly, congrArg (·.session.environment) hexec,
    ?_, fun hook text => ?_, ?_⟩
  · rw [← clears_iff hroles, congrArg (·.session.record.history) hexec]
    dsimp only [Session.Record.commit]
    split
    next hclears => exact iff_of_true rfl hclears
    next hclears => exact iff_of_false (List.cons_ne_nil _ _) hclears
  · rw [← saves_iff htokens hst, congrArg Session.Outcome.saved hexec]
    dsimp only
    split
    next hsaves =>
      simp only [Option.map_eq_some_iff, Prod.mk.injEq, hsaves, true_and]
      constructor
      · rintro ⟨hook', hhook, rfl, rfl⟩
        exact ⟨hhook, rfl⟩
      · rintro ⟨hhook, rfl⟩
        exact ⟨hook, hhook, rfl, rfl⟩
    next hsaves => simp [hsaves]
  · rintro slot rfl
    exact exists_restored_of_save (reachable_run seed calls).isFinite happly

section Examples

private def assigning : List (Session.Call Nat) :=
  [.exec "x = 2" true, .onSave 7, .exec "clear" false]

private def assigned : Calculator Nat := (Session.run frontend engine (start "") assigning).1

/-- A line that saves, with a hook in place and a variable to be kept. -/
theorem roles_tell_statements_save :
    let outcome := assigned.exec "save(slot)" true
    outcome.ok = true ∧ outcome.session.record.history ≠ [] ∧
      outcome.saved = some (7, Snapshot.write outcome.session.environment) ∧
      ∃ restored, Snapshot.read? (Snapshot.write outcome.session.environment) = some restored ∧
        restored.slots.get? "slot" = some restored.bindings := by
  have hok : (assigned.exec "save(slot)" true).ok = true := by decide +kernel
  have hhook : assigned.hook = some 7 := by decide +kernel
  have hsave : statement? "save(slot)" = some (.save "slot") := by decide +kernel
  obtain ⟨ts, st, after, result, htokens, hst, -, hafter, hclear, hsaved, hslot⟩ :=
    roles_tell_statements.2 "" assigning "save(slot)" hok
  obtain rfl : st = .save "slot" := by
    simp only [statement?, htokens, hst, Except.toOption] at hsave
    exact Option.some.inj hsave
  subst hafter
  obtain ⟨-, -, restored, hread, -, hget⟩ := hslot "slot" rfl
  intro outcome
  refine ⟨hok, fun hempty => ?_, (hsaved 7 _).mpr ⟨hhook, ⟨"slot", rfl⟩, rfl⟩,
    restored, hread, hget⟩
  have hcleared := hclear.mp hempty
  cases hcleared

end Examples

end Calculator

end Abacus
