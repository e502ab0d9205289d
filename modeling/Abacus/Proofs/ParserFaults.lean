import Abacus.Proofs.StatementParsing

/-!
# What the parser finds fault with

Whatever goes wrong in the parser is about one of the tokens that it was given, or about their end,
and what a fault quotes is the text of that token (`ParseFault`).  A part of the parser finds only
such faults if its parts do (`Faults.bind`).

The tokenizer makes a number of what is a literal only, and the parser reads each number again, to
have its value.  So the parser has a fault for numbers that are no literals, and it finds it only in
tokens that have been put together in another way (`ParseFault.ne_invalidNumber`).
-/

namespace Abacus

open Grammar (Readable)

/-- The faults that can be found in some tokens. -/
inductive ParseFault (ts : List Token) : SyntaxError → Prop where
  | empty : ParseFault ts .empty
  /-- A token stands where something else was wanted. -/
  | token {t expected} : t ∈ ts → ParseFault ts (t.unexpected expected)
  /-- The tokens end where something else was wanted. -/
  | ending {expected stop} : ParseFault ts (.unexpected .ending expected stop)
  | number {t} : t ∈ ts → t.kind = .number → Literal.read? t.text = none →
      ParseFault ts (.invalidNumber t.text t.pos)
  | format {t} : t ∈ ts → ParseFault ts (.unknownFormat t.text t.pos)

theorem ParseFault.mono {ts us : List Token} {e : SyntaxError} (h : ParseFault ts e)
    (hsub : ts ⊆ us) : ParseFault us e := by
  cases h with
  | empty => exact .empty
  | token ht => exact .token (hsub ht)
  | ending => exact .ending
  | number ht hkind hread => exact .number (hsub ht) hkind hread
  | format ht => exact .format (hsub ht)

/-- Among tokens that are all literals there is no fault in a number. -/
theorem ParseFault.ne_invalidNumber {ts : List Token} {e : SyntaxError} (h : ParseFault ts e)
    (hts : Readable ts) (word : String) (pos : Nat) : e ≠ .invalidNumber word pos := by
  rintro rfl
  cases h with
  | number ht hkind hread =>
    have hsome := hts _ ht hkind
    rw [hread] at hsome
    cases hsome

/-- Whatever goes wrong is a fault of the tokens. -/
def Faults {α : Type} (ts : List Token) (x : Except SyntaxError α) : Prop :=
  ∀ e, x = .error e → ParseFault ts e

namespace Faults

variable {α β : Type} {ts us : List Token}

theorem ok (a : α) : Faults ts (.ok a) := nofun

theorem error {e : SyntaxError} (h : ParseFault ts e) :
    Faults ts (.error e : Except SyntaxError α) := by
  intro e' he
  obtain rfl := Except.error.inj he
  exact h

theorem mono {x : Except SyntaxError α} (h : Faults ts x) (hsub : ts ⊆ us) : Faults us x :=
  fun e he => (h e he).mono hsub

theorem bind {x : Except SyntaxError α} {f : α → Except SyntaxError β} (hx : Faults ts x)
    (hf : ∀ a, x = .ok a → Faults ts (f a)) : Faults ts (x >>= f) := by
  cases x with
  | error e => exact .error (hx e rfl)
  | ok a => exact hf a rfl

end Faults

namespace Expr.Parser

/-- A token at which the parser stops is reported, either as unexpected or as a number that is no
literal. -/
theorem error_of_step {s : State} {t : Token} {e : SyntaxError} (h : step s t = .error e) :
    (∃ expected, e = t.unexpected expected) ∨
      t.kind = .number ∧ Literal.read? t.text = none ∧ e = .invalidNumber t.text t.pos := by
  cases s with
  | operand stack =>
    cases hkind : t.kind <;> simp only [step, hkind, Except.error.injEq, reduceCtorEq] at h
    case number =>
      split at h
      next => cases h
      next hread => exact .inr ⟨rfl, hread, (Except.error.inj h).symm⟩
    all_goals exact .inl ⟨_, h.symm⟩
  | argument stack =>
    rw [step] at h
    split at h
    next => cases h
    next => exact .inl ⟨_, (Except.error.inj h).symm⟩
  | operator stack e =>
    rw [step] at h
    split at h
    next => cases h
    next =>
      split at h
      -- With an open parenthesis on the stack, or with none.
      iterate 2
        next =>
          split at h
          next => cases h
          next => exact .inl ⟨_, (Except.error.inj h).symm⟩
      next => exact .inl ⟨_, (Except.error.inj h).symm⟩

theorem faults_run (s : State) (ts : List Token) : Faults ts (run s ts) := by
  induction ts generalizing s with
  | nil => exact .ok s
  | cons t ts ih =>
    rw [run]
    split
    next s' _ => exact (ih s').mono (List.subset_cons_self t ts)
    next e he =>
      rcases error_of_step he with ⟨expected, rfl⟩ | ⟨hkind, hread, rfl⟩
      · exact .error (.token List.mem_cons_self)
      · exact .error (.number List.mem_cons_self hkind hread)

theorem faults_finish (stop : Nat) (s : State) (ts : List Token) : Faults ts (finish stop s) := by
  cases s with
  | operand stack => exact .error .ending
  | argument stack => exact .error .ending
  | operator stack e =>
    rw [finish]
    split
    next => exact .ok _
    next => exact .error .ending

theorem faults_parse (stop : Nat) (ts : List Token) : Faults ts (parse stop ts) := by
  have hrun := faults_run (.operand []) ts
  rw [parse]
  split
  next s _ => exact faults_finish stop s ts
  next e he => exact .error (hrun e he)

end Expr.Parser

namespace Statement

theorem faults_expect (kind : Token.Kind) (expected : Expected) (stop : Nat) (ts : List Token) :
    Faults ts (expect kind expected stop ts) := by
  cases ts with
  | nil => exact .error .ending
  | cons t ts =>
    rw [expect]
    split
    next => exact .ok _
    next => exact .error (.token List.mem_cons_self)

theorem faults_expectEnd (ts : List Token) : Faults ts (expectEnd ts) := by
  cases ts with
  | nil => exact .ok _
  | cons t ts => exact .error (.token List.mem_cons_self)

/-- What is left behind a token of a certain kind is among the tokens, and so is the token. -/
theorem subset_of_expect {kind : Token.Kind} {expected : Expected} {stop : Nat}
    {ts rest : List Token} {t : Token} (h : expect kind expected stop ts = .ok (t, rest)) :
    t :: rest ⊆ ts := by
  obtain ⟨rfl, -⟩ := expect_eq_ok_iff.mp h
  exact List.Subset.refl _

theorem faults_nameArgument (expected : Expected) (stop : Nat) (ts : List Token) :
    Faults ts (nameArgument expected stop ts) := by
  refine .bind (faults_expect _ _ _ _) fun x hx => ?_
  have hopen := List.subset_of_cons_subset (subset_of_expect hx)
  refine .bind ((faults_expect _ _ _ _).mono hopen) fun y hy => ?_
  have hname := List.subset_of_cons_subset (subset_of_expect hy)
  exact .bind ((faults_expect _ _ _ _).mono (List.Subset.trans hname hopen)) fun _ _ => .ok _

theorem faults_emptyArgument (stop : Nat) (ts : List Token) :
    Faults ts (emptyArgument stop ts) := by
  cases ts with
  | nil => exact .ok _
  | cons t ts =>
    rw [emptyArgument]
    split
    next =>
      exact .bind ((faults_expect _ _ _ _).mono (List.subset_cons_self t ts)) fun _ _ => .ok _
    next => exact .ok _

theorem subset_of_emptyArgument {stop : Nat} {ts rest : List Token}
    (h : emptyArgument stop ts = .ok rest) : rest ⊆ ts := by
  cases ts with
  | nil =>
    obtain rfl := Except.ok.inj h
    exact List.Subset.refl _
  | cons t ts =>
    rw [emptyArgument] at h
    split at h
    next =>
      obtain ⟨⟨u, us⟩, hclose, hus⟩ := bind_eq_ok_iff.mp h
      obtain rfl := Except.ok.inj hus
      exact List.Subset.trans (List.subset_of_cons_subset (subset_of_expect hclose))
        (List.subset_cons_self t ts)
    next =>
      obtain rfl := Except.ok.inj h
      exact List.Subset.refl _

/-- What comes behind a name in parentheses finds its faults in the tokens as well. -/
theorem faults_behind_name {α : Type} {expected : Expected} {stop : Nat} {ts : List Token}
    {f : Token × List Token → Except SyntaxError α}
    (hf : ∀ x, x.1 ∈ ts → x.2 ⊆ ts → Faults ts (f x)) :
    Faults ts (nameArgument expected stop ts >>= f) := by
  refine .bind (faults_nameArgument _ _ _) fun x hx => ?_
  obtain ⟨l, r, rfl, -⟩ := nameArgument_eq_ok_iff.mp hx
  exact hf x (by simp) fun u hu => by simp [hu]

/-- **The parser finds fault with its tokens only.** -/
theorem faults_parseBody (stop : Nat) (ts : List Token) : Faults ts (parseBody stop ts) := by
  have hexpr : Faults ts (Expr.Parser.parse stop ts >>= fun e => pure (Statement.expr e)) :=
    .bind (Expr.Parser.faults_parse _ _) fun _ _ => .ok _
  cases ts with
  | nil => exact .error .empty
  | cons t rest =>
    have hrest := List.subset_cons_self t rest
    cases hkind : t.kind <;> simp only [parseBody, hkind]
    case clear =>
      refine .bind ((faults_emptyArgument _ _).mono hrest) fun left hleft => ?_
      have hall := List.Subset.trans (subset_of_emptyArgument hleft) hrest
      exact .bind ((faults_expectEnd _).mono hall) fun _ _ => .ok _
    case save | load =>
      refine (faults_behind_name fun x _ hleft => ?_).mono hrest
      exact .bind ((faults_expectEnd _).mono hleft) fun _ _ => .ok _
    case output =>
      refine (faults_behind_name fun x hname hleft => ?_).mono hrest
      cases Radix.ofName? x.1.text with
      | none => exact .error (.format hname)
      | some radix => exact .bind ((faults_expectEnd _).mono hleft) fun _ _ => .ok _
    case «variable» =>
      cases rest with
      | nil => exact hexpr
      | cons u value =>
        have hvalue : value ⊆ t :: u :: value :=
          List.Subset.trans (List.subset_cons_self u value) hrest
        show Faults _ (if _ then _ else _)
        split
        next => exact .bind ((Expr.Parser.faults_parse _ _).mono hvalue) fun _ _ => .ok _
        next => exact hexpr
    all_goals exact hexpr

theorem faults_parse (ts : List Token) : Faults ts (parse ts) :=
  (faults_parseBody _ _).mono (body_subset ts)

end Statement

end Abacus
