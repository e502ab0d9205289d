import Abacus.Proofs.FiniteSnapshots

/-!
# Output formats are for showing

The output format is part of the environment, and statements can change it.  All the same it decides
nothing but how results are written: no value, no slot and no error depends on it.

That is said of two environments with the same variables and slots (`SameStore`), whose formats may
differ.  Whatever statement is applied to both, it fails in both and with the same error, or leaves
environments of which the same can be said again (`SameStore.apply`).  The results of an expression
or of an assignment are then one value, written in two formats.

Hence a run from which all statements are struck out that set the format, keeps pace with the whole
run: it skips what only changes the format, and does the rest in an environment with the same
variables and slots.
-/

namespace Abacus.Environment

/-- The environments differ at most in their output formats. -/
structure SameStore (a b : Environment) : Prop where
  bindings : a.bindings = b.bindings
  slots : a.slots = b.slots

theorem SameStore.refl (a : Environment) : SameStore a a := ⟨rfl, rfl⟩

theorem SameStore.symm {a b : Environment} (h : SameStore a b) : SameStore b a :=
  ⟨h.bindings.symm, h.slots.symm⟩

theorem SameStore.trans {a b c : Environment} (h : SameStore a b) (h' : SameStore b c) :
    SameStore a c :=
  ⟨h.bindings.trans h'.bindings, h.slots.trans h'.slots⟩

/-- These are results of the statement in two environments with the same variables: two writings of
one value if it evaluates an expression, or else the same text. -/
def SameResult (a b : Environment) (s : Statement) (result result' : String) : Prop :=
  match s.expr? with
  | some e => ∃ value, e.eval a.bindings = .ok value ∧
      result = a.radix.render value ∧ result' = b.radix.render value
  | none => result = result'

/-! ## One line -/

/-- The step lemma.  A statement does the same in both environments, and writes its result in the
format of each. -/
theorem SameStore.apply {a b : Environment} (h : SameStore a b) (s : Statement) :
    (∃ e, a.apply s = .error e ∧ b.apply s = .error e) ∨
      ∃ a' b' result result', a.apply s = .ok (a', result) ∧ b.apply s = .ok (b', result') ∧
        SameStore a' b' ∧ SameResult a b s result result' := by
  cases s with
  | expr e =>
    simp only [Environment.apply, ← h.bindings]
    cases heval : e.eval a.bindings with
    | error fault => exact .inl ⟨_, rfl, rfl⟩
    | ok value => exact .inr ⟨a, b, _, _, rfl, rfl, h, value, heval, rfl, rfl⟩
  | assign name e =>
    simp only [Environment.apply, ← h.bindings]
    cases heval : e.eval a.bindings with
    | error fault => exact .inl ⟨_, rfl, rfl⟩
    | ok value => exact .inr ⟨_, _, _, _, rfl, rfl, ⟨rfl, h.slots⟩, value, heval, rfl, rfl⟩
  | clear => exact .inr ⟨_, _, _, _, rfl, rfl, ⟨rfl, h.slots⟩, rfl⟩
  | save slot =>
    refine .inr ⟨_, _, _, _, rfl, rfl, ⟨h.bindings, ?_⟩, rfl⟩
    show a.slots.insert slot a.bindings = b.slots.insert slot b.bindings
    rw [h.slots, h.bindings]
  | load slot =>
    simp only [Environment.apply, ← h.slots]
    cases a.slots.get? slot with
    | none => exact .inl ⟨_, rfl, rfl⟩
    | some bindings => exact .inr ⟨_, _, _, _, rfl, rfl, ⟨rfl, rfl⟩, rfl⟩
  | output radix => exact .inr ⟨_, _, _, _, rfl, rfl, ⟨h.bindings, h.slots⟩, rfl⟩

/-- What is said of a statement holds of a line, whether it is kept or not.  A line that is no
statement is refused with the same error. -/
theorem SameStore.execute {a b : Environment} (h : SameStore a b) (ts : List Token)
    (persist : Bool) :
    SameStore (a.execute ts persist).1 (b.execute ts persist).1 ∧
      ((∃ e, (a.execute ts persist).2 = .error e ∧ (b.execute ts persist).2 = .error e) ∨
        ∃ s result result', Statement.parse ts = .ok s ∧
          (a.execute ts persist).2 = .ok result ∧ (b.execute ts persist).2 = .ok result' ∧
          SameResult a b s result result') := by
  cases hs : Statement.parse ts with
  | error e =>
    simp only [Environment.execute, run, hs]
    exact ⟨h, .inl ⟨_, rfl, rfl⟩⟩
  | ok s =>
    rw [execute_of_parse hs, execute_of_parse hs]
    rcases h.apply s with ⟨e, ha, hb⟩ | ⟨a', b', result, result', ha, hb, hafter, hresult⟩
    · simp only [ha, hb]
      exact ⟨h, .inl ⟨e, rfl, rfl⟩⟩
    · simp only [ha, hb]
      refine ⟨?_, .inr ⟨s, result, result', rfl, rfl, rfl, hresult⟩⟩
      cases persist with
      | false => exact h
      | true => exact hafter

/-- Whether the tokens set the output format. -/
def setsFormat (ts : List Token) : Bool :=
  match Statement.parse ts with
  | .ok (.output _) => true
  | _ => false

/-- A line that sets the output format changes nothing else. -/
theorem sameStore_of_setsFormat {ts : List Token} (h : setsFormat ts = true) (env : Environment)
    (persist : Bool) : SameStore (env.execute ts persist).1 env := by
  unfold setsFormat at h
  split at h
  next radix hs =>
    rw [execute_of_parse hs]
    cases persist with
    | false => exact .refl env
    | true => exact ⟨rfl, rfl⟩
  next => cases h

/-! ## A whole run -/

/-- The lines of a run, each with its result or error. -/
def outcomes (env : Environment) :
    List (List Token × Bool) → List ((List Token × Bool) × Except RunError String)
  | [] => []
  | r :: runs => (r, (env.execute r.1 r.2).2) :: outcomes (env.execute r.1 r.2).1 runs

/-- A line with its error, if it has one.  The text of its result is dropped. -/
def verdict (o : (List Token × Bool) × Except RunError String) :
    (List Token × Bool) × Except RunError Unit :=
  (o.1, o.2.map fun _ => ())

/-- The same line in environments that differ at most in format ends the same way. -/
theorem SameStore.verdict_eq {a b : Environment} (h : SameStore a b) (r : List Token × Bool) :
    verdict (r, (a.execute r.1 r.2).2) = verdict (r, (b.execute r.1 r.2).2) := by
  rcases (h.execute r.1 r.2).2 with ⟨e, ha, hb⟩ | ⟨s, result, result', -, ha, hb, -⟩ <;>
    rw [ha, hb]
  rfl

/-- The run lemma.  Without the lines that set the format, a run keeps pace with the whole run. -/
theorem SameStore.executeAll_filter {a b : Environment} (h : SameStore a b)
    (runs : List (List Token × Bool)) :
    SameStore (a.executeAll (runs.filter fun r => !setsFormat r.1)) (b.executeAll runs) ∧
      (outcomes a (runs.filter fun r => !setsFormat r.1)).map verdict =
        ((outcomes b runs).filter fun o => !setsFormat o.1.1).map verdict := by
  induction runs generalizing a b with
  | nil => exact ⟨h, rfl⟩
  | cons r runs ih =>
    rw [outcomes, List.filter_cons, List.filter_cons]
    cases hr : setsFormat r.1 with
    | true => exact ih (h.trans (sameStore_of_setsFormat hr b r.2).symm)
    | false =>
      obtain ⟨hstore, houtcomes⟩ := ih (h.execute r.1 r.2).1
      refine ⟨hstore, ?_⟩
      show ((outcomes a (r :: runs.filter _)).map verdict) = _
      rw [outcomes, List.map_cons, houtcomes, h.verdict_eq r]
      rfl

/-- **The output format shapes results and no values.**

* A line that is run in two environments which differ at most in their output formats, to be kept or
  not, fails in both with the same error or succeeds in both, and the environments that it leaves
  differ again at most in their output formats.  If it evaluates an expression, the two results are
  the value of that expression, written in the format of each; any other result is the same text.
* A run from which all lines are struck out that set the format ends with the same variables and the
  same slots, and each of the remaining lines succeeds or fails as before, with the same error. -/
theorem format_shapes_results_only :
    (∀ (a b : Environment) (ts : List Token) (persist : Bool), SameStore a b →
      let one := a.execute ts persist
      let other := b.execute ts persist
      SameStore one.1 other.1 ∧
        ((∃ e, one.2 = .error e ∧ other.2 = .error e) ∨
          ∃ s result result', Statement.parse ts = .ok s ∧
            one.2 = .ok result ∧ other.2 = .ok result' ∧
            match s.expr? with
            | some e => ∃ value, e.eval a.bindings = .ok value ∧
                result = a.radix.render value ∧ result' = b.radix.render value
            | none => result = result')) ∧
    ∀ (env : Environment) (runs : List (List Token × Bool)),
      let rest := runs.filter fun r => !setsFormat r.1
      ((env.executeAll rest).bindings = (env.executeAll runs).bindings ∧
          (env.executeAll rest).slots = (env.executeAll runs).slots) ∧
        (outcomes env rest).map verdict =
          ((outcomes env runs).filter fun o => !setsFormat o.1.1).map verdict := by
  refine ⟨fun a b ts persist h => h.execute ts persist, fun env runs => ?_⟩
  obtain ⟨hstore, houtcomes⟩ := (SameStore.refl env).executeAll_filter runs
  exact ⟨⟨hstore.bindings, hstore.slots⟩, houtcomes⟩

section Examples

/-- An environment that shows integers in this format. -/
def showing (radix : Radix) : Environment := { bindings := .ofList [("x", .int 10)], radix }

/-- The statement of the second one of the lines below. -/
def doubling : Statement := .assign "y" (.binary .mul (.variable "x") (.number (.int 2)))

/-- Lines of which two set the format, one of them as a preview, and one fails. -/
def formatted : List (List Token × Bool) :=
  [(tokens "output(hex)", true), (tokens "y = x * 2", true), (tokens "output(bin)", false),
   (tokens "y // 0", true), (tokens "save(a)", true)]

/-- The value 20 is written in two ways, and three lines leave the slot that all five leave. -/
theorem format_shapes_results_only_doubling :
    SameStore (showing .dec) (showing .hex) ∧
      ((showing .dec).execute (tokens "y = x * 2") true).2 = .ok "20" ∧
      ((showing .hex).execute (tokens "y = x * 2") true).2 = .ok "0x14" ∧
      ((showing .dec).executeAll (formatted.filter fun r => !setsFormat r.1)).slots =
        ((showing .dec).executeAll formatted).slots := by
  have hstore : SameStore (showing .dec) (showing .hex) := ⟨rfl, rfl⟩
  have hs : Statement.parse (tokens "y = x * 2") = .ok doubling :=
    Statement.toOption_eq_some_iff.mp (by decide +kernel)
  have hok : ((showing .dec).execute (tokens "y = x * 2") true).2.isOk = true := by
    decide +kernel
  have hrun := format_shapes_results_only.2 (showing .dec) formatted
  obtain ⟨-, ⟨e, he, -⟩ | ⟨s, result, result', hs', hresult, hresult', hsame⟩⟩ :=
    format_shapes_results_only.1 (showing .dec) (showing .hex) (tokens "y = x * 2") true hstore
  · exact absurd ((congrArg Except.isOk he).symm.trans hok) Bool.false_ne_true
  · obtain rfl : doubling = s := Except.ok.inj (hs.symm.trans hs')
    obtain ⟨value, hvalue, rfl, rfl⟩ := hsame
    obtain rfl : Number.int 20 = value := Except.ok.inj (Eq.trans (by decide +kernel) hvalue)
    refine ⟨hstore, hresult.trans ?_, hresult'.trans ?_, hrun.1.2⟩
    · exact congrArg Except.ok (by decide +kernel)
    · exact congrArg Except.ok (by decide +kernel)

end Examples

end Abacus.Environment
