import Abacus.Proofs.SaveSlots

/-!
# Independent assignments

An assignment reads the variables that its expression mentions, and it writes one.  Of two
assignments to different variables, neither of which mentions the variable of the other, neither can
notice whether the other one has been run before it.  So their order makes no difference to the
variables they leave behind, nor to what is reported of each of them.

That includes assignments that fail.  An expression is evaluated from the left, and the first error
is reported, so the error depends on the variables that are mentioned just as the value does
(`Expr.eval_congr`).  A failing assignment writes nothing, and then there is nothing to be noticed
(`assigned`).
-/

namespace Abacus

/-- Values under different names can be stored in either order. -/
theorem Dict.insert_comm {α : Type} (d : Dict α) {x y : String} (h : x ≠ y) (a b : α) :
    (d.insert x a).insert y b = (d.insert y b).insert x a := by
  refine Dict.ext_get? fun key => ?_
  simp only [Dict.get?_insert]
  by_cases hx : x = key
  · have hy : y ≠ key := fun hy => h (hx.trans hy.symm)
    rw [if_neg hy, if_pos hx, if_pos hx]
  · rw [if_neg hx, if_neg hx]

namespace Expr

/-- **The value or error of an expression depends on the variables that it mentions.** -/
theorem eval_congr {d d' : Dict Number} {e : Expr}
    (h : ∀ name, e.mentions name = true → d.get? name = d'.get? name) : e.eval d = e.eval d' := by
  induction e with
  | number value => rfl
  | «variable» name => rw [eval, eval, h name (beq_self_eq_true name)]
  | unary op operand ih => rw [eval, eval, ih h]
  | binary op left right ihleft ihright =>
    have hleft := ihleft fun name hname => h name (Bool.or_eq_true_iff.mpr (.inl hname))
    have hright := ihright fun name hname => h name (Bool.or_eq_true_iff.mpr (.inr hname))
    rw [eval, eval, hleft, hright]

/-- A variable that is not mentioned may have any value. -/
theorem eval_insert {e : Expr} {x : String} (h : e.mentions x = false) (d : Dict Number)
    (value : Number) : e.eval (d.insert x value) = e.eval d := by
  refine eval_congr fun name hname => ?_
  have hne : x ≠ name := by
    rintro rfl
    exact absurd (hname.symm.trans h) (by decide)
  rw [Dict.get?_insert, if_neg hne]

end Expr

namespace Environment

/-- The environment after a statement that is kept, and the result or the error. -/
def keep (env : Environment) (s : Statement) : Environment × Except RunError String :=
  match env.apply s with
  | .ok (after, result) => (after, .ok result)
  | .error e => (env, .error e)

/-- Tokens that are run for keeps do what the statement does that they spell. -/
theorem execute_eq_keep {ts : List Token} {s : Statement} (h : Statement.parse ts = .ok s)
    (env : Environment) : env.execute ts true = env.keep s := by
  rw [execute_of_parse h, keep]
  cases env.apply s <;> rfl

/-- The variables after an assignment.  They are as before if the expression has no value. -/
def assigned (d : Dict Number) (x : String) (e : Expr) : Dict Number :=
  match e.eval d with
  | .ok value => d.insert x value
  | .error _ => d

theorem assigned_of_ok {d : Dict Number} {e : Expr} {value : Number} (h : e.eval d = .ok value)
    (x : String) : assigned d x e = d.insert x value := by
  rw [assigned, h]

theorem assigned_of_error {d : Dict Number} {e : Expr} {fault : EvalError}
    (h : e.eval d = .error fault) (x : String) : assigned d x e = d := by
  rw [assigned, h]

/-- What an assignment does: it changes the variables at most, and reports the value in the output
format, or the error. -/
theorem keep_assign (env : Environment) (x : String) (e : Expr) :
    env.keep (.assign x e) =
      ({ env with bindings := assigned env.bindings x e },
        ((e.eval env.bindings).map env.radix.render).mapError .eval) := by
  cases hvalue : e.eval env.bindings with
  | ok value =>
    simp only [keep, apply, hvalue, assigned_of_ok hvalue]
    rfl
  | error fault =>
    simp only [keep, apply, hvalue, assigned_of_error hvalue]
    rfl

/-- An assignment is not noticed by what does not mention its variable. -/
theorem eval_assigned {f : Expr} {x : String} (h : f.mentions x = false) (d : Dict Number)
    (e : Expr) : f.eval (assigned d x e) = f.eval d := by
  cases hvalue : e.eval d with
  | ok value => rw [assigned_of_ok hvalue, Expr.eval_insert h]
  | error fault => rw [assigned_of_error hvalue]

/-- The order of two independent assignments makes no difference to the variables. -/
theorem assigned_comm {x y : String} (hxy : x ≠ y) {e f : Expr} (he : e.mentions y = false)
    (hf : f.mentions x = false) (d : Dict Number) :
    assigned (assigned d x e) y f = assigned (assigned d y f) x e := by
  -- Each has the value or the error that it would have alone, and one that fails drops out.
  have hfirst := eval_assigned hf d e
  have hsecond := eval_assigned he d f
  cases hvalue : e.eval d with
  | error fault => rw [assigned_of_error hvalue, assigned_of_error (hsecond.trans hvalue)]
  | ok a =>
    cases hvalue' : f.eval d with
    | error fault => rw [assigned_of_error (hfirst.trans hvalue'), assigned_of_error hvalue']
    | ok b =>
      calc assigned (assigned d x e) y f
          = (d.insert x a).insert y b := by
            rw [assigned_of_ok (hfirst.trans hvalue'), assigned_of_ok hvalue]
        _ = (d.insert y b).insert x a := Dict.insert_comm d hxy a b
        _ = assigned (assigned d y f) x e := by
            rw [assigned_of_ok (hsecond.trans hvalue), assigned_of_ok hvalue']

/-- Two independent assignments that are kept lead to the same environment in either order, and
each reports the same whether the other one has come first or not. -/
theorem keep_assign_comm {x y : String} (hxy : x ≠ y) {e f : Expr} (he : e.mentions y = false)
    (hf : f.mentions x = false) (env : Environment) :
    ((env.keep (.assign x e)).1.keep (.assign y f)).1 =
        ((env.keep (.assign y f)).1.keep (.assign x e)).1 ∧
      (env.keep (.assign x e)).2 = ((env.keep (.assign y f)).1.keep (.assign x e)).2 ∧
      ((env.keep (.assign x e)).1.keep (.assign y f)).2 = (env.keep (.assign y f)).2 := by
  simp only [keep_assign, assigned_comm hxy he hf, eval_assigned he, eval_assigned hf, and_self]

/-- **Independent assignments commute.**  Take two assignments to different variables, neither of
which mentions the variable of the other.  From any environment they lead to the same environment in
either order, and each has the same result or the same error in both, also if one or both of them
fail.  That holds of the statements and of all tokens that spell them. -/
theorem independent_assignments_commute {x y : String} (hxy : x ≠ y) {e f : Expr}
    (he : e.mentions y = false) (hf : f.mentions x = false) (env : Environment) :
    (let first := env.keep (.assign x e)
      let second := first.1.keep (.assign y f)
      let first' := env.keep (.assign y f)
      let second' := first'.1.keep (.assign x e)
      second.1 = second'.1 ∧ first.2 = second'.2 ∧ second.2 = first'.2) ∧
    ∀ ts us, Statement.parse ts = .ok (.assign x e) → Statement.parse us = .ok (.assign y f) →
      let first := env.execute ts true
      let second := first.1.execute us true
      let first' := env.execute us true
      let second' := first'.1.execute ts true
      second.1 = second'.1 ∧ first.2 = second'.2 ∧ second.2 = first'.2 := by
  refine ⟨keep_assign_comm hxy he hf env, fun ts us hts hus => ?_⟩
  simp only [execute_eq_keep hts, execute_eq_keep hus]
  exact keep_assign_comm hxy he hf env

/-- An assignment that fails, and one that overwrites the variable it reads. -/
theorem independent_assignments_commute_failing :
    let env : Environment := { bindings := .ofList [("x", .int 3)], radix := .hex }
    let first := env.execute (tokens "x = x * 5") true
    let first' := env.execute (tokens "y = 1 // 0") true
    (first'.1.execute (tokens "x = x * 5") true).2 = .ok "0xf" ∧
      (first.1.execute (tokens "y = 1 // 0") true).2 = .error (.eval .divisionByZero) ∧
      (first.1.execute (tokens "y = 1 // 0") true).1 =
        (first'.1.execute (tokens "x = x * 5") true).1 := by
  intro env first first'
  have htriple : Statement.parse (tokens "x = x * 5") =
      .ok (.assign "x" (.binary .mul (.variable "x") (.number (.int 5)))) :=
    Statement.toOption_eq_some_iff.mp (by decide +kernel)
  have hdivide : Statement.parse (tokens "y = 1 // 0") =
      .ok (.assign "y" (.binary .floorDiv (.number (.int 1)) (.number (.int 0)))) :=
    Statement.toOption_eq_some_iff.mp (by decide +kernel)
  obtain ⟨henv, hfirst, hsecond⟩ :=
    (independent_assignments_commute (by decide) (by decide) (by decide) env).2 _ _ htriple hdivide
  have hfifteen : Expr.eval env.bindings (.binary .mul (.variable "x") (.number (.int 5))) =
      .ok (.int 15) := rfl
  have hnone : Expr.eval env.bindings (.binary .floorDiv (.number (.int 1)) (.number (.int 0))) =
      .error .divisionByZero := rfl
  refine ⟨hfirst.symm.trans ?_, hsecond.trans ?_, henv⟩
  · rw [execute_eq_keep htriple, keep_assign, hfifteen]
    exact congrArg Except.ok (by decide +kernel)
  · rw [execute_eq_keep hdivide, keep_assign, hnone]
    rfl

end Environment

end Abacus
