import Abacus.Proofs.Grammar

/-!
# The parser follows the grammar

The parser keeps a stack of what has been begun; the grammar knows no stack.  The two
are brought together by what a stack *means*, once for each direction.

## From a derivation to a run

Reading the tokens of a derivation on top of a stack leaves an operand and perhaps more
frames.  What matters is not which frames, but that settling them gives the tree of the
derivation on top of the old stack (`Leaves`).  This holds for every limit that the category can
stand: an operator that arrives behind an expression of category `c` and binds more
weakly than `c` finds the tree finished (`leaves_of_derives`).

## From a run to a derivation

Conversely every stack that the parser builds has been spelled by some tokens.
`Pending c stack ts` says so, where `c` is the category that has to follow.  The sign `+`
leaves no frame, so it is a rule of `Pending` that keeps the stack.  One token preserves
this reading (`Reads.step`), and so does a list of tokens (`Reads.run`).

Settling is the step with an argument in it: each frame that is finished makes the
operand an expression of a weaker category, but never of one weaker than the operator
at hand asks for (`Pending.settle`).
-/

namespace Abacus

namespace Grammar.Category

/-- An expression of the category may be begun on a stack that holds its operands only
with this strength. -/
def floor : Category → Nat
  | unary | power | atom => 16
  | c => 2 * c.rank

/-- An operator that binds its left operand with less strength than this finishes an
expression of the category. -/
def ceiling : Category → Nat
  | unary | power => 14
  | atom => 17
  | c => 2 * c.rank + 1

theorem floor_le_floor_next (c : Category) : c.floor ≤ c.next.floor := by
  cases c <;> decide

theorem ceiling_le_ceiling_next (c : Category) : c.ceiling ≤ c.next.ceiling := by
  cases c <;> decide

end Grammar.Category

namespace Expr.Parser

open Grammar

/-! ## Settling -/

/-- How strongly a frame binds the operand after it.  A parenthesis does not bind it. -/
def Frame.strength : Frame → Nat
  | .unary _ => UnaryOp.strength
  | .binary op _ => op.rightStrength
  | .group => 0
  | .absolute => 0

/-- The operand on this stack belongs to an operator that binds it with strength `limit`
or more, and not to the topmost frame. -/
def Holds (limit : Nat) (stack : List Frame) : Prop :=
  ∀ f ∈ stack.head?, f.strength ≤ limit

theorem Holds.mono {limit limit' : Nat} {stack : List Frame} (h : Holds limit stack)
    (hle : limit ≤ limit') : Holds limit' stack :=
  fun f hf => Nat.le_trans (h f hf) hle

theorem holds_cons {limit : Nat} {f : Frame} {stack : List Frame} (h : f.strength ≤ limit) :
    Holds limit (f :: stack) := by
  intro g hg
  obtain rfl : f = g := by simpa using hg
  exact h

theorem settle_eq_self {limit : Nat} {stack : List Frame} (h : Holds limit stack) (e : Expr) :
    settle limit stack e = (stack, e) := by
  cases stack with
  | nil => rfl
  | cons f stack =>
    have hf : f.strength ≤ limit := h f rfl
    cases f with
    | unary op =>
      have hf' : ¬ limit < UnaryOp.strength := Nat.not_lt.mpr hf
      rw [settle, if_neg hf']
    | binary op left =>
      have hf' : ¬ limit < op.rightStrength := Nat.not_lt.mpr hf
      rw [settle, if_neg hf']
    | group => rfl
    | absolute => rfl

theorem rightStrength_bounds (op : BinaryOp) : 2 < op.rightStrength ∧ op.rightStrength ≤ 15 := by
  cases op <;> decide

/-- No frame binds as strongly as `**` does on its left. -/
theorem holds_of_le {limit : Nat} (h : 15 ≤ limit) (stack : List Frame) : Holds limit stack := by
  intro f _
  refine Nat.le_trans ?_ h
  cases f with
  | unary op => exact (by decide : UnaryOp.strength ≤ 15)
  | binary op left => exact (rightStrength_bounds op).2
  | group => exact Nat.zero_le _
  | absolute => exact Nat.zero_le _

/-- The end of an expression finishes what the weakest operator finishes. -/
theorem settle_zero (stack : List Frame) (e : Expr) : settle 0 stack e = settle 2 stack e := by
  induction stack generalizing e with
  | nil => rfl
  | cons f stack ih =>
    cases f with
    | unary op => exact ih _
    | binary op left =>
      have h := (rightStrength_bounds op).1
      rw [settle, settle, if_pos (by omega), if_pos h]
      exact ih _
    | group => rfl
    | absolute => rfl

/-! ## From a derivation to a run -/

theorem bounds_of_mem_operators {c : Category} {k : Token.Kind} {op : BinaryOp}
    (h : (k, op) ∈ c.operators) :
    c.floor = op.leftStrength ∧ c.ceiling = op.rightStrength ∧
      op.leftStrength < op.rightStrength ∧ op.rightStrength ≤ c.next.floor := by
  have hs := strength_of_mem_operators h
  cases c <;> simp only [Category.operators, List.not_mem_nil] at h <;>
    simp only [Category.rank, Category.next, Category.floor, Category.ceiling] at hs ⊢ <;> omega

/-- Reading these tokens on this stack leaves an operand and perhaps more frames, which are
settled like `e` on the old stack by every operator that binds its left operand with less
strength than `bound`. -/
def Leaves (bound : Nat) (stack : List Frame) (ts : List Token) (e : Expr) : Prop :=
  ∃ stack' e', run (.operand stack) ts = .ok (.operator stack' e') ∧
    ∀ limit < bound, settle limit stack' e' = settle limit stack e

section Leaves

variable {bound bound' : Nat} {stack : List Frame} {ts us : List Token} {t l r : Token}
  {e a b : Expr}

theorem Leaves.mono (h : Leaves bound' stack ts e) (hbound : bound ≤ bound') :
    Leaves bound stack ts e := by
  obtain ⟨stack', e', hrun, hsettle⟩ := h
  exact ⟨stack', e', hrun, fun limit hl => hsettle limit (Nat.lt_of_lt_of_le hl hbound)⟩

theorem leaves_token (hstep : step (.operand stack) t = .ok (.operator stack e)) (bound : Nat) :
    Leaves bound stack [t] e := by
  refine ⟨stack, e, ?_, fun _ _ => rfl⟩
  simp only [run, hstep]

/-- A sign waits for its operand and is applied to it. -/
theorem Leaves.sign {op : UnaryOp} (h : Leaves bound (.unary op :: stack) ts e)
    (hstep : step (.operand stack) t = .ok (.operand (.unary op :: stack)))
    (hbound : bound ≤ UnaryOp.strength) : Leaves bound stack (t :: ts) (.unary op e) := by
  obtain ⟨stack', e', hrun, hsettle⟩ := h
  refine ⟨stack', e', ?_, fun limit hl => ?_⟩
  · rw [run, hstep]
    exact hrun
  · rw [hsettle limit hl, settle, if_pos (Nat.lt_of_lt_of_le hl hbound)]

/-- An operator finds its left operand finished, and is applied once the right one is. -/
theorem Leaves.operator {op : BinaryOp} (ha : Leaves bound' stack ts a)
    (hop : BinaryOp.ofKind? t.kind = some op) (hleft : op.leftStrength < bound')
    (hstack : Holds op.leftStrength stack) (hb : Leaves bound (.binary op a :: stack) us b)
    (hbound : bound ≤ op.rightStrength) : Leaves bound stack (ts ++ t :: us) (.binary op a b) := by
  obtain ⟨s₁, e₁, hrun₁, hsettle₁⟩ := ha
  obtain ⟨s₂, e₂, hrun₂, hsettle₂⟩ := hb
  have hfinished : settle op.leftStrength s₁ e₁ = (stack, a) := by
    rw [hsettle₁ _ hleft, settle_eq_self hstack]
  have hstep : step (.operator s₁ e₁) t = .ok (.operand (.binary op a :: stack)) := by
    simp only [step, hop, hfinished]
  refine ⟨s₂, e₂, ?_, fun limit hl => ?_⟩
  · rw [run_append, hrun₁]
    simp only [run, hstep, hrun₂]
  · rw [hsettle₂ limit hl, settle, if_pos (Nat.lt_of_lt_of_le hl hbound)]

/-- A parenthesis finds everything finished down to the one that it closes. -/
theorem Leaves.group (h : Leaves bound (.group :: stack) ts e) (hbound : 0 < bound)
    (hl : l.kind = .openParen) (hr : r.kind = .closeParen) (bound' : Nat) :
    Leaves bound' stack (l :: (ts ++ [r])) e := by
  obtain ⟨stack', e', hrun, hsettle⟩ := h
  have hclosed : settle 0 stack' e' = (.group :: stack, e) := hsettle 0 hbound
  refine ⟨stack, e, ?_, fun _ _ => rfl⟩
  rw [run, step, hl]
  simp only [run_append, hrun, run, step, hr, BinaryOp.ofKind?, hclosed, if_true]

theorem Leaves.absolute {t : Token} (h : Leaves bound (.absolute :: stack) ts e)
    (hbound : 0 < bound) (ht : t.kind = .abs) (hl : l.kind = .openParen)
    (hr : r.kind = .closeParen) (bound' : Nat) :
    Leaves bound' stack (t :: l :: (ts ++ [r])) (.unary .absolute e) := by
  obtain ⟨stack', e', hrun, hsettle⟩ := h
  have hclosed : settle 0 stack' e' = (.absolute :: stack, e) := hsettle 0 hbound
  refine ⟨stack, .unary .absolute e, ?_, fun _ _ => rfl⟩
  rw [run, step, ht]
  simp only [run, step, hl, if_true, run_append, hrun, hr, BinaryOp.ofKind?, hclosed]

end Leaves

/-- Reading the tokens of a derivation leaves its tree. -/
theorem leaves_of_derives {c : Category} {ts : List Token} {e : Expr} (h : Derives c ts e)
    (hread : Readable ts) (stack : List Frame) (hstack : Holds c.floor stack) :
    Leaves c.ceiling stack ts e := by
  induction h generalizing stack with
  | @next c ts e _ ih =>
    exact (ih hread stack (hstack.mono c.floor_le_floor_next)).mono c.ceiling_le_ceiling_next
  | @binary c ts us a b op t _ hop _ iha ihb =>
    obtain ⟨hfloor, hceiling, hlr, hnext⟩ := bounds_of_mem_operators hop
    obtain ⟨hreada, hreadb⟩ := List.forall_mem_append.mp hread
    have hb := ihb (List.forall_mem_cons.mp hreadb).2 (.binary op a :: stack) (holds_cons hnext)
    refine (iha hreada stack hstack).operator (ofKind?_of_mem_operators hop) ?_ (hfloor ▸ hstack)
      (hb.mono c.ceiling_le_ceiling_next) (Nat.le_of_eq hceiling)
    rw [hceiling]
    exact hlr
  | @pow ts us a b t _ ht _ iha ihb =>
    obtain ⟨hreada, hreadb⟩ := List.forall_mem_append.mp hread
    -- Nothing is ever finished by `**`, so the atom is still as it was read.
    have ha := iha hreada stack (holds_of_le (by decide) stack)
    have hb := ihb (List.forall_mem_cons.mp hreadb).2 (.binary .pow a :: stack)
      (holds_of_le (by decide) _)
    exact ha.operator (by rw [ht]; rfl) (by decide) (holds_of_le (by decide) stack) hb (by decide)
  | @negate ts e t ht _ ih =>
    have h := ih (List.forall_mem_cons.mp hread).2 (.unary .negate :: stack)
      (holds_of_le (by decide) _)
    exact h.sign (by simp only [step, ht]) (Nat.le_refl _)
  | @plus ts e t ht _ ih =>
    obtain ⟨s, e', hrun, hsettle⟩ := ih (List.forall_mem_cons.mp hread).2 stack hstack
    refine ⟨s, e', ?_, hsettle⟩
    simp only [run, step, ht, hrun]
  | @complement ts e t ht _ ih =>
    have h := ih (List.forall_mem_cons.mp hread).2 (.unary .complement :: stack)
      (holds_of_le (by decide) _)
    exact h.sign (by simp only [step, ht]) (Nat.le_refl _)
  | @literal t ht =>
    obtain ⟨value, hvalue⟩ := Option.isSome_iff_exists.mp (hread t List.mem_cons_self ht)
    exact leaves_token (by simp only [step, ht, hvalue, numberOf, Option.getD_some]) _
  | @name t ht => exact leaves_token (by simp only [step, ht]) _
  | @group ts e l r hl _ hr ih =>
    have hread' := (List.forall_mem_append.mp (List.forall_mem_cons.mp hread).2).1
    have h := ih hread' (.group :: stack) (holds_cons (Nat.zero_le _))
    exact h.group (by decide) hl hr _
  | @absolute ts e a l r ha hl _ hr ih =>
    have hread' := (List.forall_mem_append.mp
      (List.forall_mem_cons.mp (List.forall_mem_cons.mp hread).2).2).1
    have h := ih hread' (.absolute :: stack) (holds_cons (Nat.zero_le _))
    exact h.absolute (by decide) ha hl hr _

/-! ## From a run to a derivation -/

/-- The tokens have built this stack, and an expression of category `c` has to follow. -/
inductive Pending : Category → List Frame → List Token → Prop where
  | bottom : Pending .or [] []
  | plus {c stack ts t} : Pending c stack ts → t.kind = .add → Pending .unary stack (ts ++ [t])
  | negate {c stack ts t} : Pending c stack ts → t.kind = .sub →
      Pending .unary (.unary .negate :: stack) (ts ++ [t])
  | complement {c stack ts t} : Pending c stack ts → t.kind = .complement →
      Pending .unary (.unary .complement :: stack) (ts ++ [t])
  | binary {c d stack ts us a op t} : Pending c stack ts → c.rank ≤ d.rank → Derives d us a →
      (t.kind, op) ∈ d.operators → Pending d.next (.binary op a :: stack) (ts ++ us ++ [t])
  | pow {c stack ts us a t} : Pending c stack ts → Derives .atom us a → t.kind = .pow →
      Pending .unary (.binary .pow a :: stack) (ts ++ us ++ [t])
  | group {c stack ts t} : Pending c stack ts → t.kind = .openParen →
      Pending .or (.group :: stack) (ts ++ [t])
  | absolute {c stack ts a t} : Pending c stack ts → a.kind = .abs → t.kind = .openParen →
      Pending .or (.absolute :: stack) (ts ++ [a] ++ [t])

/-- Nothing stronger than a sign is ever asked for. -/
theorem Pending.rank_le {c : Category} {stack : List Frame} {ts : List Token}
    (h : Pending c stack ts) : c.rank ≤ 7 := by
  cases h with
  | binary _ _ _ hop =>
    have := strength_of_mem_operators hop
    omega
  | _ => decide

/-- Every operator of a starred rule finishes a sign. -/
theorem settle_sign {d : Category} (hd : d.rank ≤ 6) (op : UnaryOp) (stack : List Frame)
    (e : Expr) :
    settle (2 * d.rank) (.unary op :: stack) e = settle (2 * d.rank) stack (.unary op e) := by
  have hlt : 2 * d.rank < UnaryOp.strength := by simp only [UnaryOp.strength]; omega
  rw [settle, if_pos hlt]

/-- Settling for an operator of category `d` finishes an expression of that category,
and what is left of the stack asks for nothing stronger. -/
theorem Pending.settle {c d x : Category} {stack : List Frame} {ts us : List Token} {e : Expr}
    (h : Pending c stack ts) (hd : d.rank ≤ 6) (he : Derives x us e) (hcx : c.rank ≤ x.rank)
    (hdx : d.rank ≤ x.rank) :
    ∃ c' ts' us', Pending c' (settle (2 * d.rank) stack e).1 ts' ∧ c'.rank ≤ d.rank ∧
      Derives d us' (settle (2 * d.rank) stack e).2 ∧ ts' ++ us' = ts ++ us := by
  induction h generalizing x us e with
  | bottom =>
    refine ⟨.or, [], us, .bottom, ?_, he.weaken hdx, rfl⟩
    cases d <;> decide
  | @plus c stack ts t hp ht ih =>
    -- The sign has no frame; it joins the operand that is finished here.
    obtain ⟨c', ts', us', hp', hc', he', heq⟩ :=
      ih (.plus ht (he.weaken hcx)) hp.rank_le (Nat.le_trans hd (by decide))
    exact ⟨c', ts', us', hp', hc', he', by rw [heq, List.append_assoc, List.singleton_append]⟩
  | @negate c stack ts t hp ht ih =>
    obtain ⟨c', ts', us', hp', hc', he', heq⟩ :=
      ih (.negate ht (he.weaken hcx)) hp.rank_le (Nat.le_trans hd (by decide))
    rw [settle_sign hd]
    exact ⟨c', ts', us', hp', hc', he', by rw [heq, List.append_assoc, List.singleton_append]⟩
  | @complement c stack ts t hp ht ih =>
    obtain ⟨c', ts', us', hp', hc', he', heq⟩ :=
      ih (.complement ht (he.weaken hcx)) hp.rank_le (Nat.le_trans hd (by decide))
    rw [settle_sign hd]
    exact ⟨c', ts', us', hp', hc', he', by rw [heq, List.append_assoc, List.singleton_append]⟩
  | @binary c b stack ts vs a op t hp hcb ha hop ih =>
    obtain ⟨-, hright, hb, hnext⟩ := strength_of_mem_operators hop
    rw [Parser.settle, hright]
    by_cases hlt : 2 * d.rank < 2 * b.rank + 1
    · have hbinary : Derives b (vs ++ t :: us) (.binary op a e) :=
        .binary ha hop (he.weaken hcx)
      obtain ⟨c', ts', us', hp', hc', he', heq⟩ := ih hbinary hcb (by omega)
      rw [if_pos hlt]
      exact ⟨c', ts', us', hp', hc', he', by rw [heq]; simp only [List.append_assoc,
        List.singleton_append]⟩
    · rw [if_neg hlt]
      exact ⟨b.next, ts ++ vs ++ [t], us, .binary hp hcb ha hop, by omega, he.weaken hdx, rfl⟩
  | @pow c stack ts vs a t hp ha ht ih =>
    have hlt : 2 * d.rank < BinaryOp.pow.rightStrength := by
      have : BinaryOp.pow.rightStrength = 15 := by decide
      omega
    have hpow : Derives .power (vs ++ t :: us) (.binary .pow a e) := .pow ha ht (he.weaken hcx)
    obtain ⟨c', ts', us', hp', hc', he', heq⟩ :=
      ih hpow (Nat.le_succ_of_le hp.rank_le) (Nat.le_trans hd (by decide))
    rw [Parser.settle, if_pos hlt]
    exact ⟨c', ts', us', hp', hc', he', by rw [heq]; simp only [List.append_assoc,
      List.singleton_append]⟩
  | @group c stack ts t hp ht ih =>
    refine ⟨.or, ts ++ [t], us, .group hp ht, ?_, he.weaken hdx, rfl⟩
    cases d <;> decide
  | @absolute c stack ts a t hp ha ht ih =>
    refine ⟨.or, ts ++ [a] ++ [t], us, .absolute hp ha ht, ?_, he.weaken hdx, rfl⟩
    cases d <;> decide

/-- The tokens have brought the parser into this state. -/
inductive Reads : List Token → State → Prop where
  | operand {c stack ts} : Pending c stack ts → Reads ts (.operand stack)
  | argument {c stack ts t} : Pending c stack ts → t.kind = .abs →
      Reads (ts ++ [t]) (.argument stack)
  | operator {c stack ts us e} : Pending c stack ts → Derives .atom us e →
      Reads (ts ++ us) (.operator stack e)

/-- At the end of an expression everything on the stack is finished, down to the last
parenthesis. -/
theorem Reads.settle_zero {ts : List Token} {stack : List Frame} {e : Expr}
    (h : Reads ts (.operator stack e)) :
    ∃ c ts' us, Pending c (settle 0 stack e).1 ts' ∧ c.rank ≤ 1 ∧
      Derives .or us (settle 0 stack e).2 ∧ ts' ++ us = ts := by
  cases h with
  | operator hp he =>
    rw [Parser.settle_zero]
    exact hp.settle (d := .or) (by decide) he (Nat.le_trans hp.rank_le (by decide)) (by decide)

/-- What may stand where an operand has to come. -/
theorem Pending.step {c : Category} {stack : List Frame} {ts : List Token} {t : Token} {s : State}
    (hp : Pending c stack ts) (hstep : step (.operand stack) t = .ok s) : Reads (ts ++ [t]) s := by
  cases ht : t.kind <;> simp only [Parser.step, ht, Except.ok.injEq, reduceCtorEq] at hstep
  case number =>
    cases hv : Literal.read? t.text with
    | none => simp [hv] at hstep
    | some value =>
      rw [hv] at hstep
      obtain rfl := Except.ok.inj hstep
      have hvalue : numberOf t = value := by rw [numberOf, hv, Option.getD_some]
      exact .operator hp (hvalue ▸ .literal ht)
  case «variable» => exact hstep ▸ .operator hp (.name ht)
  case add => exact hstep ▸ .operand (.plus hp ht)
  case sub => exact hstep ▸ .operand (.negate hp ht)
  case complement => exact hstep ▸ .operand (.complement hp ht)
  case openParen => exact hstep ▸ .operand (.group hp ht)
  case abs => exact hstep ▸ .argument hp ht

section Reads

variable {ts : List Token} {stack stack' : List Frame} {e e' : Expr} {t : Token}

/-- An operator takes the expression that it finds finished as its left operand. -/
theorem Reads.operate {op : BinaryOp} (h : Reads ts (.operator stack e))
    (hop : BinaryOp.ofKind? t.kind = some op)
    (hs : settle op.leftStrength stack e = (stack', e')) :
    Reads (ts ++ [t]) (.operand (.binary op e' :: stack')) := by
  cases h with
  | operator hp he =>
    rcases exists_mem_operators hop with ⟨ht, rfl⟩ | ⟨d, hmem⟩
    · obtain ⟨rfl, rfl⟩ := Prod.mk.inj
        ((settle_eq_self (holds_of_le (by decide) stack) e).symm.trans hs)
      exact .operand (.pow hp he ht)
    · obtain ⟨hleft, -, hd, -⟩ := strength_of_mem_operators hmem
      obtain ⟨c', ts', us', hp', hc', he', heq⟩ :=
        hp.settle hd he (Nat.le_trans hp.rank_le (by decide)) (Nat.le_trans hd (by decide))
      rw [← hleft, hs] at hp' he'
      rw [← heq]
      exact .operand (.binary hp' hc' he' hmem)

/-- A parenthesis closes the one on the stack.  No sign `+` can stand between the two, since it
asks for a stronger operand. -/
theorem Reads.close_group (h : Reads ts (.operator stack e))
    (hs : settle 0 stack e = (.group :: stack', e')) (ht : t.kind = .closeParen) :
    Reads (ts ++ [t]) (.operator stack' e') := by
  obtain ⟨c, ts', us, hp, hc, he, rfl⟩ := h.settle_zero
  rw [hs] at hp he
  cases hp with
  | plus => exact absurd hc (by decide)
  | group hp hopen =>
    rw [List.append_assoc, List.append_assoc]
    exact .operator hp (.group hopen he ht)

theorem Reads.close_absolute (h : Reads ts (.operator stack e))
    (hs : settle 0 stack e = (.absolute :: stack', e')) (ht : t.kind = .closeParen) :
    Reads (ts ++ [t]) (.operator stack' (.unary .absolute e')) := by
  obtain ⟨c, ts', us, hp, hc, he, rfl⟩ := h.settle_zero
  rw [hs] at hp he
  cases hp with
  | plus => exact absurd hc (by decide)
  | absolute hp ha hopen =>
    rw [List.append_assoc, List.append_assoc, List.append_assoc]
    exact .operator hp (.absolute ha hopen he ht)

end Reads

/-- One token preserves the reading. -/
theorem Reads.step {ts : List Token} {s s' : State} {t : Token} (h : Reads ts s)
    (hstep : step s t = .ok s') : Reads (ts ++ [t]) s' := by
  cases s with
  | operand stack =>
    obtain ⟨hp⟩ := h
    exact hp.step hstep
  | argument stack =>
    rw [Parser.step] at hstep
    split at hstep
    next ht =>
      obtain rfl := Except.ok.inj hstep
      cases h with
      | argument hp ha => exact .operand (.absolute hp ha ht)
    next => cases hstep
  | operator stack e =>
    rw [Parser.step] at hstep
    split at hstep
    next op hop =>
      obtain rfl := Except.ok.inj hstep
      exact h.operate hop rfl
    next =>
      split at hstep
      next stack' e' hs =>
        split at hstep
        next ht =>
          obtain rfl := Except.ok.inj hstep
          exact h.close_group hs ht
        next => cases hstep
      next stack' e' hs =>
        split at hstep
        next ht =>
          obtain rfl := Except.ok.inj hstep
          exact h.close_absolute hs ht
        next => cases hstep
      next => cases hstep

/-- So do any tokens. -/
theorem Reads.run {ts us : List Token} {s s' : State} (h : Reads ts s)
    (hrun : run s us = .ok s') : Reads (ts ++ us) s' := by
  induction us generalizing ts s with
  | nil =>
    obtain rfl := Except.ok.inj hrun
    rw [List.append_nil]
    exact h
  | cons u us ih =>
    rw [Parser.run] at hrun
    split at hrun
    next next hstep =>
      have := ih (h.step hstep) hrun
      rwa [List.append_assoc, List.singleton_append] at this
    next => cases hrun

/-- A number that is not written as a literal stops the parser. -/
theorem readable_of_run {ts : List Token} {s s' : State} (hrun : run s ts = .ok s') :
    Readable ts := by
  induction ts generalizing s with
  | nil => exact List.forall_mem_nil _
  | cons t ts ih =>
    rw [Parser.run] at hrun
    split at hrun
    next next hstep =>
      refine List.forall_mem_cons.mpr ⟨fun ht => ?_, ih hrun⟩
      cases s with
      | operand stack =>
        cases hv : Literal.read? t.text with
        | none => simp [Parser.step, ht, hv] at hstep
        | some value => rfl
      | argument stack => simp [Parser.step, ht] at hstep
      | operator stack e =>
        simp only [Parser.step, ht, BinaryOp.ofKind?] at hstep
        split at hstep <;> simp at hstep
    next => cases hrun

/-- The parser of expressions accepts what the grammar derives, where all numbers are
literals, and answers with the tree of the grammar. -/
theorem parse_eq_ok_iff {stop : Nat} {ts : List Token} {e : Expr} :
    parse stop ts = .ok e ↔ Readable ts ∧ Derives .or ts e := by
  rw [parse]
  constructor
  · intro h
    split at h
    next s hrun =>
      refine ⟨readable_of_run hrun, ?_⟩
      cases s with
      | operand stack => cases h
      | argument stack => cases h
      | operator stack e₀ =>
        obtain ⟨c, ts', us, hp, hc, he, heq⟩ := (Reads.run (.operand .bottom) hrun).settle_zero
        rw [finish] at h
        split at h
        next e' hs =>
          obtain rfl := Except.ok.inj h
          simp only [hs] at hp he
          cases hp with
          | bottom => exact (show us = ts from heq) ▸ he
          | plus => exact absurd hc (by decide)
        next => cases h
    next => cases h
  · rintro ⟨hread, he⟩
    obtain ⟨stack, e', hrun, hsettle⟩ := leaves_of_derives he hread [] fun f hf => by simp at hf
    have hfinish : settle 0 stack e' = ([], e) := hsettle 0 (by decide)
    simp only [hrun, finish, hfinish]

end Expr.Parser

end Abacus
