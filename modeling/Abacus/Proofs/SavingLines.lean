import Abacus.Proofs.SessionRecord
import Abacus.Proofs.StatementParsing
import Abacus.Calculator

/-!
# Lines that save

A session does not know statements.  It looks at the tokens of a line, and where one of them
saves it triggers its hook.  The environment, on the other hand, runs the statement that the
tokens spell.  The two agree: a token that saves occurs in a line that is a statement exactly
if that statement keeps the variables in a slot (`saves_iff`).

No other statement has such a token, since expressions have none, and there is nothing behind
the end of a line that the parser would not look at: the tokenizer puts one `ending` token
there, and it comes last.
-/

namespace Abacus

namespace Token

theorem lexeme_ne_ending {pos : Nat} {c : Char} {cs : List Char} {kind : Kind} {more : Nat}
    (h : lexeme pos c cs = .ok (kind, more)) : kind ≠ .ending := by
  have hword : ∀ word, wordKind word ≠ .ending := fun word => by
    unfold wordKind
    split
    next => decide
    next =>
      unfold Kind.ofKeyword?
      split <;> decide
  simp only [lexeme] at h
  split at h
  next =>
    split at h <;> cases h
    decide
  next =>
    split at h
    next =>
      cases h
      exact hword _
    next =>
      split at h
      next found hfound =>
        obtain rfl := Except.ok.inj h
        unfold symbol? at hfound
        split at hfound <;> cases hfound <;> decide
      next => cases h

/-- The tokens of a text are those before the end, and the end. -/
theorem tokensFrom_eq_ok {pos : Nat} {text : List Char} {ts : List Token}
    (h : tokensFrom pos text = .ok ts) :
    ∃ us stop, ts = us ++ [⟨.ending, stop, ""⟩] ∧ ∀ u ∈ us, u.kind ≠ .ending := by
  fun_induction tokensFrom pos text generalizing ts with
  | case1 pos => exact ⟨[], pos, (Except.ok.inj h).symm, by simp⟩
  | case2 pos c cs _ ih => exact ih h
  | case3 => cases h
  | case4 => cases h
  | case5 pos c cs _ kind more hlexeme piece rest hrest =>
    rename_i ih
    obtain ⟨us, stop, rfl, hus⟩ := ih hrest
    obtain rfl := Except.ok.inj h
    refine ⟨⟨kind, pos, String.ofList piece⟩ :: us, stop, rfl, ?_⟩
    exact List.forall_mem_cons.mpr ⟨lexeme_ne_ending hlexeme, hus⟩

end Token

namespace Grammar

/-- A token that saves occurs in the statement that saves, and in no other. -/
theorem Spells.exists_save_iff {ts : List Token} {s : Statement} (h : Spells ts s) :
    (∃ t ∈ ts, t.kind = .save) ↔ ∃ slot, s = .save slot := by
  have hexpr : ∀ {us : List Token} {e : Expr}, Derives .or us e → ∀ u ∈ us, u.kind ≠ .save :=
    fun he u hu hk => he.not_mem_foreign u hu (hk ▸ by decide)
  cases h with
  | clear ht => simp [ht]
  | clearArgument ht hl hr => simp [ht, hl, hr]
  | save ht => simp [ht]
  | load ht hl hv hr => simp [ht, hl, hv, hr]
  | output ht hl hv _ hr => simp [ht, hl, hv, hr]
  | assign hv ht he =>
    refine iff_of_false ?_ (by simp)
    rintro ⟨u, hu, hk⟩
    rcases List.mem_cons.mp hu with rfl | hu
    · simp [hv] at hk
    · rcases List.mem_cons.mp hu with rfl | hu
      · simp [ht] at hk
      · exact hexpr he u hu hk
  | expr he =>
    refine iff_of_false ?_ (by simp)
    rintro ⟨u, hu, hk⟩
    exact hexpr he u hu hk

end Grammar

namespace Calculator

/-- The statement of a line, if it is one. -/
def statement? (line : String) : Option Statement :=
  match Token.tokenize line with
  | .error _ => none
  | .ok ts => (Statement.parse ts).toOption

/-- Whether a line is a statement that keeps the variables in a slot. -/
def isSave (line : String) : Bool :=
  match statement? line with
  | some (.save _) => true
  | _ => false

theorem isSave_iff {line : String} :
    isSave line = true ↔ ∃ slot, statement? line = some (.save slot) := by
  unfold isSave
  split
  next slot h => simp [h]
  next h => simpa using h

/-- A line that is a statement has the tokens that are parsed. -/
theorem tokenize_of_parse {line : String} {ts : List Token}
    (h : parse line = .ok ts) : Token.tokenize line = .ok ts := by
  unfold parse at h
  cases htokens : Token.tokenize line with
  | error e => rw [htokens] at h; cases h
  | ok us =>
    rw [htokens] at h
    cases hs : Statement.parse us with
    | error e => simp only [hs] at h; cases h
    | ok s => simp only [hs] at h; exact h

/-- A line is either no statement, and refused, or it has tokens that spell one. -/
theorem parse_cases (line : String) :
    (statement? line = none ∧ ∃ message, frontend.parse line = .error message) ∨
      ∃ ts s, statement? line = some s ∧ frontend.parse line = .ok ts ∧
        Token.tokenize line = .ok ts ∧ Statement.parse ts = .ok s := by
  have hfront : frontend.parse line = (parse line).mapError SyntaxError.message := rfl
  rw [hfront]
  unfold statement? parse
  cases htokens : Token.tokenize line with
  | error e => exact .inl ⟨rfl, _, rfl⟩
  | ok ts =>
    cases hs : Statement.parse ts with
    | error e =>
      exact .inl ⟨by simp [hs, Except.toOption], e.message, by simp [hs, Except.mapError]⟩
    | ok s =>
      exact .inr ⟨ts, s, by simp [hs, Except.toOption], by simp [hs, Except.mapError], rfl, hs⟩

theorem exists_tokens {line : String} {s : Statement} (h : statement? line = some s) :
    ∃ ts, frontend.parse line = .ok ts ∧ Token.tokenize line = .ok ts ∧
      Statement.parse ts = .ok s := by
  rcases parse_cases line with ⟨hnone, -⟩ | ⟨ts, s', hsome, hparse, htokens, hs⟩
  · rw [h] at hnone
    cases hnone
  · obtain rfl : s = s' := Option.some.inj (h.symm.trans hsome)
    exact ⟨ts, hparse, htokens, hs⟩

/-- The tokens of a statement are those that spell it, and the one that ends the line. -/
theorem exists_spells {line : String} {ts : List Token} {s : Statement}
    (htokens : Token.tokenize line = .ok ts) (hs : Statement.parse ts = .ok s) :
    ∃ us stop, ts = us ++ [⟨.ending, stop, ""⟩] ∧ Grammar.Spells us s := by
  obtain ⟨us, stop, rfl, hus⟩ := Token.tokensFrom_eq_ok htokens
  have hbody := Statement.body_append_ending hus stop
  exact ⟨us, stop, rfl, hbody ▸ (Statement.spells_of_parseBody hs).2⟩

theorem role_eq_save_iff (t : Token) : role t = .save ↔ t.kind = .save := by
  unfold role
  split <;> simp_all

/-- The session sees that a line saves. -/
theorem saves_iff {line : String} {ts : List Token} {s : Statement}
    (htokens : Token.tokenize line = .ok ts) (hs : Statement.parse ts = .ok s) :
    Session.saves frontend ts = true ↔ ∃ slot, s = .save slot := by
  obtain ⟨us, stop, rfl, hspells⟩ := exists_spells htokens hs
  have hrole (t : Token) : (frontend.role t == .save) = true ↔ t.kind = .save :=
    beq_iff_eq.trans (role_eq_save_iff t)
  rw [← hspells.exists_save_iff, Session.saves, List.any_eq_true]
  simp only [hrole, List.mem_append, List.mem_singleton]
  constructor
  · rintro ⟨t, ht | rfl, hk⟩
    · exact ⟨t, ht, hk⟩
    · cases hk
  · rintro ⟨t, ht, hk⟩
    exact ⟨t, .inl ht, hk⟩

variable {η : Type}

/-- A statement that saves succeeds. -/
theorem ok_of_isSave (s : Calculator η) {line : String} (h : isSave line = true) (persist : Bool) :
    (s.exec line persist).ok = true := by
  obtain ⟨slot, hslot⟩ := isSave_iff.mp h
  obtain ⟨ts, hparse, -, hs⟩ := exists_tokens hslot
  unfold exec Session.exec
  rw [hparse]
  simp only [engine, Environment.execute, Environment.run, hs, Environment.apply, Except.mapError]
  cases persist <;> rfl

/-- **What is saved.**  A line asks for a snapshot to be stored exactly if it persists and is a
statement that saves, and then for that of the environment right after it. -/
theorem saved_exec (s : Calculator η) (line : String) (persist : Bool) :
    (s.exec line persist).saved =
      if persist && isSave line then
        s.hook.map fun hook =>
          (hook, Snapshot.write (s.exec line persist).session.environment)
      else none := by
  have hok : isSave line = true → (s.exec line persist).ok = true :=
    fun h => ok_of_isSave s h persist
  unfold exec at hok ⊢
  rw [Session.exec_eq_ofEvent] at hok ⊢
  generalize hevent : Session.Event.of frontend engine s.environment line persist = e at hok ⊢
  have hpersist : e.persist = persist := by
    subst hevent
    unfold Session.Event.of
    split <;> rfl
  -- Without a statement there is no success, and otherwise the tokens decide.
  have hsaves : (e.persisted && Session.saves frontend e.tokens) = (persist && isSave line) := by
    unfold Session.Event.persisted
    rw [hpersist, Bool.and_assoc]
    congr 1
    rcases parse_cases line with ⟨hnone, message, hparse⟩ | ⟨ts, statement, hsome, hparse, ht, hs⟩
    · subst hevent
      rw [Session.Event.of, hparse, isSave, hnone]
      rfl
    · have htokens : e.tokens = ts := by
        subst hevent
        rw [Session.Event.of, hparse]
      rw [htokens, Bool.eq_iff_iff, Bool.and_eq_true, saves_iff ht hs, isSave_iff, hsome]
      simp only [Option.some.injEq]
      refine ⟨fun h => h.2, fun h => ⟨hok ?_, h⟩⟩
      rw [isSave_iff, hsome]
      simpa using h
  unfold Session.Outcome.ofEvent
  rw [hsaves]
  rfl

end Calculator

end Abacus
